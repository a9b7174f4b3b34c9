import Mathlib.Tactic.FinCases
import LinearGrammar.Grammar.Basic
import LinearGrammar.Proofs.CommandLines
import LinearGrammar.Proofs.Words

/-!
# Every command can be typed

A command line keeps what the command is given, so a command that is written as a line is read from
that line again. `IsTyped` says which lines these are: any keyword of the command, a blank at least
behind it if anything follows, what the command is given, and blanks at both ends. Not every command
can be written so. The texts of a command come trimmed, its symbols without blanks and its amount
within 64 bits, and `IsProper` says that they do. It is what every line that is read conforms to, so
nothing is lost by asking for it.

What a command is given may hold anything else, number signs, bars and keywords too. None of it is
looked at before the line is cut, because a keyword stands in front of it, and no keyword begins with a
number sign.
-/

namespace LinearGrammar

open Text (IsSymbol IsNumeral Spaced isBlank trim)

namespace Command

/-! ## Lines of a command -/

/-- The words that a command can be called by. -/
def keywords : Command → List String
  | .terminals _ => ["t", "terminal"]
  | .nonterminals _ => ["n", "nonterminal"]
  | .removeTerminals _ => ["rt"]
  | .removeNonterminals _ => ["rn"]
  | .start _ => ["axiom", "a"]
  | .rule _ => ["rule", "r"]
  | .unrule _ => ["unrule", "u"]
  | .levels _ => ["levels", "l"]
  | .word _ => ["word", "w"]
  | .tree => ["tree"]
  | .display => ["show", "s"]
  | .check => ["check"]
  | .prune => ["prune"]
  | .sample _ => ["sample"]
  | .save _ => ["save"]
  | .load _ => ["load"]
  | .help => ["help", "h", "?"]
  | .quit => ["quit", "q", "exit"]
  | .empty | .unknown _ => []

/-- A command with all that it needs, in the form in which a line hands it on. -/
def IsProper : Command → Prop
  | .terminals symbols | .nonterminals symbols | .removeTerminals symbols
  | .removeNonterminals symbols => symbols ≠ [] ∧ ∀ s ∈ symbols, IsSymbol s
  | .start text | .rule text | .unrule text | .save text | .load text =>
      text ≠ "" ∧ trim text = text
  | .levels text | .word text => trim text = text
  | .sample amount => amount < Text.wordLimit
  | .tree | .display | .check | .prune | .help | .quit | .empty => True
  | .unknown _ => False

instance : DecidablePred IsProper
  | .terminals symbols | .nonterminals symbols | .removeTerminals symbols
  | .removeNonterminals symbols =>
      inferInstanceAs (Decidable (symbols ≠ [] ∧ ∀ s ∈ symbols, IsSymbol s))
  | .start text | .rule text | .unrule text | .save text | .load text =>
      inferInstanceAs (Decidable (text ≠ "" ∧ trim text = text))
  | .levels text | .word text => inferInstanceAs (Decidable (trim text = text))
  | .sample amount => inferInstanceAs (Decidable (amount < Text.wordLimit))
  | .tree | .display | .check | .prune | .help | .quit | .empty => .isTrue trivial
  | .unknown _ => .isFalse id

/-- The texts in which a line can say what a command is given. -/
def IsGiven : Command → String → Prop
  | .terminals symbols, args | .nonterminals symbols, args | .removeTerminals symbols, args
  | .removeNonterminals symbols, args => Spaced symbols args.toList
  | .start text, args | .rule text, args | .unrule text, args | .save text, args
  | .load text, args | .levels text, args | .word text, args => args = text
  | .sample amount, args => IsNumeral amount args.toList ∨ amount = 1 ∧ args = ""
  | .tree, args | .display, args | .check, args | .prune, args | .help, args | .quit, args
  | .empty, args | .unknown _, args => args = ""

/-- A line in which a command is typed. -/
inductive IsTyped (c : Command) (line : String) : Prop
  | intro (keyword gap args before after : String) (hkeyword : keyword ∈ c.keywords)
      (hargs : c.IsGiven args) (hgap : gap ≠ "" ∨ args = "")
      (hblank : ∀ b ∈ gap.toList, isBlank b = true)
      (hbefore : ∀ b ∈ before.toList, isBlank b = true)
      (hafter : ∀ b ∈ after.toList, isBlank b = true)
      (hline : line = before ++ (keyword ++ gap ++ args) ++ after)

theorem isSymbol_of_mem_keywords {c : Command} {keyword : String} (h : keyword ∈ c.keywords) :
    IsSymbol keyword ∧ keyword.toList.head? ≠ some '#' := by
  have hall : ∀ k ∈ c.keywords, IsSymbol k ∧ k.toList.head? ≠ some '#' := by
    cases c <;> rw [keywords] <;> decide
  exact hall keyword h

theorem ofLine_congr {line line' : String} (h : trim line = trim line') :
    ofLine line = ofLine line' := by
  rw [ofLine, h, ofLine]

/-- A line that has a keyword first, and a blank behind it if anything follows. -/
theorem ofLine_typed {keyword gap args before after : String} (hkeyword : IsSymbol keyword)
    (hnote : keyword.toList.head? ≠ some '#') (hgap : gap ≠ "" ∨ args = "")
    (hblank : ∀ b ∈ gap.toList, isBlank b = true)
    (hbefore : ∀ b ∈ before.toList, isBlank b = true)
    (hafter : ∀ b ∈ after.toList, isBlank b = true) :
    ofLine (before ++ (keyword ++ gap ++ args) ++ after) = ofKeyword keyword (trim args) := by
  have hhead : ∀ c, (gap ++ args).toList.head? = some c → isBlank c = true := by
    intro c hc
    rw [String.toList_append] at hc
    cases hcases : gap.toList with
    | nil =>
        obtain rfl : args = "" :=
          hgap.resolve_left fun hne => hne (String.toList_eq_nil_iff.1 hcases)
        rw [hcases] at hc
        cases hc
    | cons b rest =>
        rw [hcases] at hc hblank
        obtain rfl : b = c := Option.some.inj hc
        exact hblank b List.mem_cons_self
  have htrim : trim (gap ++ args) = trim args := by
    have hnone : ∀ b ∈ "".toList, isBlank b = true := nofun
    have h := Text.trim_append hblank hnone args
    rwa [String.append_empty] at h
  rw [ofLine_congr (Text.trim_append hbefore hafter _), String.append_assoc,
    ofLine_keyword hkeyword hnote hhead, htrim]

/-! ## What a command is given -/

theorem ofSymbols_spaced {symbols : List String} {args : String} (hne : symbols ≠ [])
    (hsymbols : ∀ s ∈ symbols, IsSymbol s) (h : Spaced symbols args.toList)
    (command : List String → Command) : ofSymbols (trim args) command = command symbols := by
  have hwords : Text.words (trim args) = symbols := by
    have h := Text.words_spaced hsymbols h
    rwa [String.ofList_toList, ← Text.words_trim] at h
  have hargs : ¬ (trim args).isEmpty = true := by
    intro hempty
    rw [String.isEmpty_iff.1 hempty] at hwords
    exact hne hwords.symm
  rw [ofSymbols, if_neg hargs, hwords]

theorem ofText_trimmed {text : String} (hne : text ≠ "") (htext : trim text = text)
    (keyword : String) (command : String → Command) :
    ofText keyword (trim text) command = command text := by
  rw [htext, ofText, if_neg (mt String.isEmpty_iff.1 hne)]

theorem ofAmount_numeral {amount : Nat} {args : String} (hamount : amount < Text.wordLimit)
    (h : IsNumeral amount args.toList) : ofAmount (trim args) = .sample amount := by
  obtain ⟨hne, hink⟩ := h.isSymbol
  rw [Text.trim_of_hasBlank hink, ofAmount, if_neg (mt String.isEmpty_iff.1 hne),
    h.natural? hamount]

/-- Every keyword of a command reads it from what it is given. -/
theorem ofKeyword_given {c : Command} {keyword args : String} (hproper : c.IsProper)
    (hkeyword : keyword ∈ c.keywords) (hargs : c.IsGiven args) :
    ofKeyword keyword (trim args) = c := by
  cases c <;> rw [keywords] at hkeyword
  case terminals | nonterminals | removeTerminals | removeNonterminals =>
    have hread := ofSymbols_spaced hproper.1 hproper.2 hargs
    fin_cases hkeyword <;> exact hread _
  case start | rule | unrule | save | load =>
    obtain rfl := hargs
    have hread := ofText_trimmed hproper.1 hproper.2
    fin_cases hkeyword <;> exact hread _ _
  case levels | word =>
    obtain rfl := hargs
    fin_cases hkeyword <;> exact congrArg _ hproper
  case sample amount =>
    fin_cases hkeyword
    change ofAmount (trim args) = _
    rcases hargs with hargs | ⟨rfl, rfl⟩
    · exact ofAmount_numeral hproper hargs
    · rfl
  case tree | display | check | prune | help | quit => fin_cases hkeyword <;> rfl
  case empty | unknown => cases hkeyword

/-! ## What is read from a line -/

/-- A command that can come from a line. -/
def IsRead (c : Command) : Prop := c.IsProper ∨ ∃ what, c = .unknown what

theorem isRead_ofAmount (args : String) : (ofAmount args).IsRead := by
  unfold ofAmount
  split
  · exact .inl (by decide)
  · split
    · next amount hamount => exact .inl (Text.natural?_lt hamount)
    · exact .inr ⟨_, rfl⟩

section Given

variable {args : String} (hargs : trim args = args)

include hargs

theorem isRead_ofSymbols {command : List String → Command}
    (hcommand : ∀ symbols, symbols ≠ [] ∧ (∀ s ∈ symbols, IsSymbol s) →
      (command symbols).IsProper) : (ofSymbols args command).IsRead := by
  unfold ofSymbols
  split
  · exact .inr ⟨_, rfl⟩
  · next hne =>
      rw [String.isEmpty_iff, ← hargs] at hne
      exact .inl (hcommand _ ⟨Text.words_ne_nil hne, fun _ => Text.isSymbol_of_mem_words⟩)

theorem isRead_ofText {command : String → Command}
    (hcommand : ∀ text, text ≠ "" ∧ trim text = text → (command text).IsProper)
    (keyword : String) : (ofText keyword args command).IsRead := by
  unfold ofText
  split
  · exact .inr ⟨_, rfl⟩
  · next hne => exact .inl (hcommand _ ⟨mt String.isEmpty_iff.2 hne, hargs⟩)

theorem isRead_ofKeyword (keyword : String) : (ofKeyword keyword args).IsRead := by
  fun_cases ofKeyword keyword args
  case case1 | case2 | case3 | case4 | case5 | case6 =>
    exact isRead_ofSymbols hargs fun _ => id
  case case7 | case8 | case9 | case10 | case11 | case12 | case23 | case24 =>
    exact isRead_ofText hargs (fun _ => id) _
  case case13 | case14 | case15 | case16 => exact .inl hargs
  case case22 => exact isRead_ofAmount args
  case case31 => exact .inr ⟨keyword, rfl⟩
  -- The commands that are given nothing.
  all_goals exact .inl trivial

end Given

theorem isRead_ofLine (line : String) : (ofLine line).IsRead := by
  unfold ofLine
  dsimp only
  split
  · exact .inl trivial
  · exact isRead_ofKeyword (Text.trim_trim _) _

theorem IsTyped.ofLine_eq {c : Command} {line : String} (hproper : c.IsProper)
    (h : c.IsTyped line) : ofLine line = c := by
  obtain ⟨keyword, gap, args, before, after, hkeyword, hargs, hgap, hblank, hbefore, hafter, rfl⟩ := h
  obtain ⟨hsymbol, hnote⟩ := isSymbol_of_mem_keywords hkeyword
  rw [ofLine_typed hsymbol hnote hgap hblank hbefore hafter]
  exact ofKeyword_given hproper hkeyword hargs

end Command

/-! ## Symbols that a line hands on -/

theorem map_ne_error {ε α β : Type} {x : Except ε α} {e : ε} (h : x ≠ .error e) (f : α → β) :
    x.map f ≠ .error e := by
  cases x with
  | error e' => exact fun heq => h (congrArg Except.error (Except.error.inj heq))
  | ok a => exact nofun

theorem Alphabet.insert_ne_blankInSymbol {s : String} (hs : IsSymbol s) (a other : Alphabet)
    (symbol : String) : a.insert other s ≠ .error (.blankInSymbol symbol) := by
  obtain ⟨-, hink⟩ := hs
  intro h
  simp only [insert, Text.trim_of_hasBlank hink, hink] at h
  repeat' split at h
  all_goals cases h
  contradiction

namespace Command

theorem isSymbol_of_ofLine {line s : String} {symbols : List String}
    (hline : ofLine line = .terminals symbols ∨ ofLine line = .nonterminals symbols)
    (hs : s ∈ symbols) : IsSymbol s := by
  rcases isRead_ofLine line with hproper | ⟨what, hunknown⟩
  · rcases hline with hline | hline
    all_goals
      rw [hline] at hproper
      exact hproper.2 s hs
  · rcases hline with hline | hline <;> cases hline.symm.trans hunknown

/-- Every line holds a command with all that it needs, or is refused. Every such command can be typed
with any of its keywords, any blanks and any writing of what it is given, and is read as it is. And the
symbols that are read from a line have no blanks that a grammar would refuse them for. -/
theorem ofLine_round_trip :
    (∀ line, (ofLine line).IsProper ∨ ∃ what, ofLine line = .unknown what) ∧
    (∀ c line, IsProper c → IsTyped c line → ofLine line = c) ∧
    (∀ line symbols, ofLine line = .terminals symbols ∨ ofLine line = .nonterminals symbols →
      ∀ s ∈ symbols, ∀ (g : Grammar) symbol, g.addTerminal s ≠ .error (.blankInSymbol symbol) ∧
        g.addNonterminal s ≠ .error (.blankInSymbol symbol)) := by
  refine ⟨isRead_ofLine, fun c line hproper htyped => htyped.ofLine_eq hproper, ?_⟩
  intro line symbols hline s hs g symbol
  have hnot := Alphabet.insert_ne_blankInSymbol (isSymbol_of_ofLine hline hs)
  exact ⟨map_ne_error (hnot g.terminals g.nonterminals symbol) _,
    map_ne_error (hnot g.nonterminals g.terminals symbol) _⟩

/-- Symbols that look like a comment and like keywords, a text that begins with a number sign, and the
largest amount there is. -/
theorem ofLine_round_trip_wild :
    ofLine "\u3000rt \u2003a\t#b  t|n \t" = .removeTerminals ["a", "#b", "t|n"] ∧
      ofLine "w\u2003#  a|b" = .word "#  a|b" ∧
      ofLine "sample\t+0018446744073709551615 " = .sample 18446744073709551615 ∧
      ∀ s ∈ ["t", "#"], ∀ (g : Grammar) symbol, g.addTerminal s ≠ .error (.blankInSymbol symbol) ∧
        g.addNonterminal s ≠ .error (.blankInSymbol symbol) := by
  obtain ⟨-, hread, hsymbols⟩ := ofLine_round_trip
  have hblank : ∀ {text : String}, trim text = "" → ∀ b ∈ text.toList, isBlank b = true :=
    Text.trim_eq_empty_iff.1
  have hspaced : Spaced ["a", "#b", "t|n"] "a\t#b  t|n".toList :=
    .piece (by decide) (.piece (by decide) (.blank (by decide) (.last "t|n")))
  have hnumeral : IsNumeral 18446744073709551615 "+0018446744073709551615".toList := .plus 2
  refine ⟨hread _ _ (by decide) ?_, hread _ _ (by decide) ?_,
    hread _ _ (by decide) ?_, hsymbols "t t #" _ (.inl (by decide +kernel))⟩
  · exact ⟨"rt", " \u2003", "a\t#b  t|n", "\u3000", " \t", by decide, hspaced, .inl (by decide),
      hblank (by decide), hblank (by decide), hblank (by decide), by decide +kernel⟩
  · exact ⟨"w", "\u2003", "#  a|b", "", "", by decide, rfl, .inl (by decide),
      hblank (by decide), hblank (by decide), hblank (by decide), by decide +kernel⟩
  · exact ⟨"sample", "\t", "+0018446744073709551615", "", " ", by decide, .inl hnumeral,
      .inl (by decide), hblank (by decide), hblank (by decide), hblank (by decide), by decide +kernel⟩

end Command

end LinearGrammar
