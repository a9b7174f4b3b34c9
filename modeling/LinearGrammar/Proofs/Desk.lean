import LinearGrammar.Grammar.Edits
import LinearGrammar.Proofs.Filing
import LinearGrammar.Session.World

/-!
# What commands do to the grammar and the files

A session mixes what is typed with what a service says, but the grammar and the files know nothing of
the service. `Desk` is these two alone, and `Desk.run` says what a command does to them without a
session, a view or a world: it comes to a few edits, which depend on the files when a saved grammar is
loaded, and it may write a file. `World.desk_carryOut` says that a command does just this in any
session and any world with these files, whatever the file system is.

That the grammar changes by edits and in no other way makes everything that edits keep hold in every
session. A command that the program breaks off at has no session after it, and of it nothing is said
but which one it is.
-/

namespace LinearGrammar

open FileSystem (readText writeText Saved)

variable {φ : Type} [FileSystem φ]

/-! ## Saved grammars -/

/-- The submission in a file that was read, if it holds one. -/
def Submission.ofFile? : Except FileFault String → Option Submission
  | .error _ => none
  | .ok text => (Json.readText Submission.read text).toOption

/-- The grammar in a file that was read, if it holds one that is accepted. -/
def Grammar.ofFile? (text : Except FileFault String) : Option Grammar :=
  (Submission.ofFile? text).bind fun s => (ofSubmission s).toOption

namespace Session

theorem loadText_of_some {s : Session} {path : String} {text : Except FileFault String}
    {g : Grammar} (h : Grammar.ofFile? text = some g) :
    s.loadText path text = .ok (grammarLines g, { s with grammar := g, tree := none }) := by
  cases text with
  | error fault => cases h
  | ok text =>
      rw [Grammar.ofFile?, Submission.ofFile?] at h
      rw [loadText]
      cases hread : Json.readText Submission.read text with
      | error e => rw [hread] at h; cases h
      | ok submission =>
          rw [hread] at h
          change (Grammar.ofSubmission submission).toOption = some g at h
          cases hmade : Grammar.ofSubmission submission with
          | error e => rw [hmade] at h; cases h
          | ok made => rw [hmade] at h; cases h; simp only [hmade]

theorem loadText_of_none {path : String} {text : Except FileFault String}
    (h : Grammar.ofFile? text = none) (s : Session) : ∃ e, s.loadText path text = .error e := by
  cases text with
  | error fault => exact ⟨_, rfl⟩
  | ok text =>
      rw [Grammar.ofFile?, Submission.ofFile?] at h
      rw [loadText]
      cases hread : Json.readText Submission.read text with
      | error e => exact ⟨_, rfl⟩
      | ok submission =>
          rw [hread] at h
          change (Grammar.ofSubmission submission).toOption = none at h
          cases hmade : Grammar.ofSubmission submission with
          | error e => exact ⟨.invalid path e, by simp only [hmade]⟩
          | ok made => rw [hmade] at h; cases h

end Session

/-! ## Commands as edits -/

/-- The edits that a command comes to where these are the files. -/
def Command.edits (files : φ) : Command → List Edit
  | .terminals symbols => symbols.map .addTerminal
  | .nonterminals symbols => symbols.map .addNonterminal
  | .removeTerminals symbols => symbols.map .removeTerminal
  | .removeNonterminals symbols => symbols.map .removeNonterminal
  | .start symbol => [.chooseStart symbol]
  | .rule line => [.addRules line]
  | .unrule line =>
    match RuleLine.ofText line with
    | .ok l => [.removeRule l.head (String.intercalate "|" l.alternatives)]
    | .error _ => []
  | .levels text => [.setLevels text]
  | .prune => [.pruneRules]
  | .load path => ((Submission.ofFile? (readText files path)).map .load).toList
  | _ => []

/-- Whether the program breaks off at a command. -/
def Command.breaksOff : Command → Bool
  | .sample amount => sampleCapacity < amount
  | _ => false

/-- The grammar that is edited, and the files around it. -/
structure Desk (φ : Type) where
  grammar : Grammar
  files : φ

namespace Desk

/-- The text of the grammar in a file. -/
def savedText (d : Desk φ) : String := d.grammar.snapshot.toJson.pretty

/-- The grammar and the files after a command. -/
def run (d : Desk φ) (c : Command) : Desk φ where
  grammar := d.grammar.editAll (c.edits d.files)
  files :=
    match c with
    | .save path => (writeText d.files path d.savedText).2
    | _ => d.files

/-- The file that a command writes, and what it writes. -/
def written? (d : Desk φ) : Command → Option (String × String)
  | .save path =>
    match (writeText d.files path d.savedText).1 with
    | .ok () => some (path, d.savedText)
    | .error _ => none
  | _ => none

def runAll (d : Desk φ) (commands : List Command) : Desk φ := commands.foldl run d

/-- The grammar and the files after each command, and what it wrote. -/
def records (d : Desk φ) : List Command → List (Desk φ × Option (String × String))
  | [] => []
  | c :: rest => (d.run c, d.written? c) :: (d.run c).records rest

theorem runAll_concat (d : Desk φ) (commands : List Command) (c : Command) :
    d.runAll (commands ++ [c]) = (d.runAll commands).run c := by
  rw [runAll, List.foldl_append]
  rfl

theorem records_concat (d : Desk φ) (commands : List Command) (c : Command) :
    d.records (commands ++ [c]) =
      d.records commands ++ [((d.runAll commands).run c, (d.runAll commands).written? c)] := by
  induction commands generalizing d with
  | nil => rfl
  | cons first rest ih =>
      rw [List.cons_append, records, ih, records, List.cons_append]
      rfl

theorem of_written? {d : Desk φ} {c : Command} {path text : String}
    (h : d.written? c = some (path, text)) :
    c = .save path ∧ text = d.savedText ∧ (writeText d.files path text).1 = .ok () := by
  unfold written? at h
  split at h
  · split at h
    · next hok =>
        cases h
        exact ⟨rfl, rfl, hok⟩
    · cases h
  · cases h

/-- What a command wrote can be read, and no other file is touched. -/
theorem saved_run [LawfulFileSystem φ] {d : Desk φ} {c : Command} {path text : String}
    (h : d.written? c = some (path, text)) : Saved d.files path text (d.run c).files := by
  obtain ⟨rfl, rfl, hok⟩ := of_written? h
  exact FileSystem.saved_writeText hok

end Desk

/-! ## Commands in a session -/

namespace Grammar

theorem edit_of_ok {g h : Grammar} {e : Edit} (hok : g.tryEdit e = .ok h) : g.edit e = h := by
  rw [edit, hok]

theorem edit_of_error {g : Grammar} {e : Edit} {cause : EditError}
    (herror : g.tryEdit e = .error cause) : g.edit e = g := by
  rw [edit, herror]

theorem editAll_nil (g : Grammar) : g.editAll [] = g := rfl

theorem editAll_cons (g : Grammar) (e : Edit) (edits : List Edit) :
    g.editAll (e :: edits) = (g.edit e).editAll edits := rfl

theorem editAll_load (g : Grammar) (text : Except FileFault String) :
    g.editAll ((Submission.ofFile? text).map .load).toList = (ofFile? text).getD g := by
  rw [ofFile?]
  cases Submission.ofFile? text with
  | none => rfl
  | some submission =>
      change g.edit (.load submission) = (ofSubmission submission).toOption.getD g
      rw [edit, tryEdit]
      cases ofSubmission submission <;> rfl

end Grammar

namespace Session

/-- Taking in symbols one by one is a list of edits. -/
theorem enter_snd {add : Grammar → String → Except EditError (Bool × Grammar)}
    {entry : String → Edit} (hentry : ∀ g text, g.tryEdit (entry text) = (add g text).map (·.2))
    (field : ReportField) (symbols : List String) (g : Grammar) :
    (enter field add symbols g).2 = g.editAll (symbols.map entry) := by
  induction symbols generalizing g with
  | nil => rfl
  | cons symbol rest ih =>
      have htry := hentry g symbol
      rw [enter, List.map_cons, Grammar.editAll_cons]
      cases hadd : add g symbol with
      | ok r =>
          rw [hadd] at htry
          rw [Grammar.edit_of_ok htry, ← ih]
      | error e =>
          rw [hadd] at htry
          rw [Grammar.edit_of_error htry, ← ih]

theorem grammar_setWord (s : Session) (text : String) : (s.setWord text).2.grammar = s.grammar := by
  unfold setWord
  split <;> rfl

theorem grammar_unrule (s : Session) (line : String) (files : φ) :
    (s.unrule line).2.grammar = s.grammar.editAll ((Command.unrule line).edits files) := by
  rw [unrule, Command.edits]
  cases RuleLine.ofText line with
  | error e => rfl
  | ok l =>
      simp only [Grammar.editAll_cons, Grammar.edit, Grammar.tryEdit]
      cases s.grammar.removeRule l.head (String.intercalate "|" l.alternatives) <;> rfl

end Session

namespace World

theorem carryOut_eq_none_iff (w : World φ) (s : Session) (c : Command) :
    w.carryOut (s.execute c) = none ↔ c.breaksOff = true := by
  cases c with
  | sample amount =>
      rw [Session.execute, Grammar.sample, Command.breaksOff, decide_eq_true_iff]
      by_cases hroom : amount ≤ sampleCapacity
      · rw [if_pos hroom]
        exact iff_of_false (Option.some_ne_none _) (Nat.not_lt_of_le hroom)
      · rw [if_neg hroom]
        exact iff_of_true rfl (Nat.lt_of_not_le hroom)
  | start symbol =>
      rw [Session.execute]
      cases s.grammar.chooseStart symbol <;>
        exact iff_of_false (Option.some_ne_none _) Bool.false_ne_true
  | rule line =>
      rw [Session.execute]
      cases s.grammar.addRules line <;>
        exact iff_of_false (Option.some_ne_none _) Bool.false_ne_true
  | tree =>
      rw [Session.execute]
      cases s.grammar.toSubmission <;>
        exact iff_of_false (Option.some_ne_none _) Bool.false_ne_true
  | _ => exact iff_of_false (Option.some_ne_none _) Bool.false_ne_true

theorem eq_of_carryOut_done {α : Type} {w after : World φ} {a b : α}
    (h : w.carryOut (.done a) = some (b, after)) : b = a ∧ after = w := by
  cases h
  exact ⟨rfl, rfl⟩

/-- In whatever session and world a command is run, the grammar and the files are after it what the
command makes of them alone. -/
theorem desk_carryOut {w after : World φ} {s : Session} {c : Command} {result : Session.Result}
    (h : w.carryOut (s.execute c) = some (result, after)) :
    (⟨result.2.grammar, after.files⟩ : Desk φ) = Desk.run ⟨s.grammar, w.files⟩ c := by
  cases c with
  | terminals symbols =>
      cases h
      exact congrArg (Desk.mk · w.files) (Session.enter_snd (fun _ _ => rfl) _ symbols s.grammar)
  | nonterminals symbols =>
      cases h
      exact congrArg (Desk.mk · w.files) (Session.enter_snd (fun _ _ => rfl) _ symbols s.grammar)
  | removeTerminals symbols =>
      cases h
      exact congrArg (Desk.mk · w.files)
        (List.foldl_map (f := Edit.removeTerminal) (g := Grammar.edit)).symm
  | removeNonterminals symbols =>
      cases h
      exact congrArg (Desk.mk · w.files)
        (List.foldl_map (f := Edit.removeNonterminal) (g := Grammar.edit)).symm
  | start symbol =>
      simp only [Desk.run, Command.edits, Grammar.editAll_cons, Grammar.editAll_nil, Grammar.edit,
        Grammar.tryEdit]
      rw [Session.execute] at h
      cases hstart : s.grammar.chooseStart symbol <;> rw [hstart] at h <;> cases h <;> rfl
  | rule line =>
      simp only [Desk.run, Command.edits, Grammar.editAll_cons, Grammar.editAll_nil, Grammar.edit,
        Grammar.tryEdit]
      rw [Session.execute] at h
      cases hadd : s.grammar.addRules line <;> rw [hadd] at h <;> cases h <;> rfl
  | unrule line =>
      -- Not by `cases h`: there the cut of the line would be evaluated.
      obtain ⟨rfl, rfl⟩ := eq_of_carryOut_done h
      simp only [Desk.run, s.grammar_unrule line after.files]
  | word text =>
      cases h
      exact congrArg (Desk.mk · w.files) (s.grammar_setWord text)
  | tree =>
      rw [Session.execute] at h
      cases hready : s.grammar.toSubmission with
      | error e => rw [hready] at h; cases h; rfl
      | ok submission =>
          have hshow : ∀ outcome, (s.showTree outcome).2.grammar = s.grammar := fun outcome => by
            cases outcome <;> rfl
          rw [hready] at h
          cases h
          exact congrArg (Desk.mk · w.files) (hshow _)
  | sample amount =>
      have hshow : ∀ samples, (s.showSamples samples).2.grammar = s.grammar := fun samples => by
        cases samples <;> rfl
      rw [Session.execute] at h
      cases hroom : s.grammar.sample amount with
      | none => rw [hroom] at h; cases h
      | some run =>
          rw [hroom] at h
          cases h
          exact congrArg (Desk.mk · w.files) (hshow _)
  | save path =>
      simp only [Session.execute, carryOut, meet] at h
      simp only [Desk.run, Desk.savedText]
      cases hwrite : writeText w.files path s.grammar.snapshot.toJson.pretty with
      | mk reply files =>
          rw [hwrite] at h
          cases reply <;> cases h <;> rfl
  | load path =>
      cases h
      have hload := Grammar.editAll_load s.grammar (readText w.files path)
      refine (congrArg (Desk.mk · w.files) ?_).trans (congrArg (Desk.mk · w.files) hload.symm)
      simp only []
      cases hfile : Grammar.ofFile? (readText w.files path) with
      | some g => rw [Session.loadText_of_some hfile, Option.getD_some]
      | none =>
          obtain ⟨e, he⟩ := Session.loadText_of_none hfile s
          rw [he, Option.getD_none]
  | levels | display | check | prune | help | quit | empty | unknown => cases h; rfl

end World

end LinearGrammar
