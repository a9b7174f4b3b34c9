import LinearGrammar.Text.Cut
import LinearGrammar.Text.Natural

/-!
# Commands

A command line is a keyword and what it is given, with a blank between them; blanks at the ends do not
count. What a command is given is kept as it was typed, apart from the blanks around it. A line that
is blank or begins with a number sign is no command.
-/

namespace LinearGrammar

inductive Command where
  | terminals (symbols : List String)
  | nonterminals (symbols : List String)
  | removeTerminals (symbols : List String)
  | removeNonterminals (symbols : List String)
  | start (symbol : String)
  /-- Enter the rules of a line. -/
  | rule (line : String)
  /-- Take one rule out. -/
  | unrule (line : String)
  | levels (text : String)
  /-- Replace the word under test. -/
  | word (text : String)
  /-- Submit the grammar and draw its tree. -/
  | tree
  | display
  /-- List the rules that match the alphabets no more. -/
  | check
  /-- Take those rules out. -/
  | prune
  | sample (amount : Nat)
  | save (path : String)
  | load (path : String)
  | help
  | quit
  /-- A blank line or a comment. -/
  | empty
  /-- No command, or one that was given the wrong things. -/
  | unknown (what : String)
  deriving DecidableEq, Repr

namespace Command

def helpText : String :=
  "t SYM..          add terminal symbols\n" ++
  "n SYM..          add nonterminal symbols\n" ++
  "rt SYM..         remove terminal symbols\n" ++
  "rn SYM..         remove nonterminal symbols\n" ++
  "axiom SYM        choose the axiom\n" ++
  "rule A->b|c      add production rules\n" ++
  "unrule A->b      remove a production rule\n" ++
  "levels N         set the expansion depth\n" ++
  "word [WORD]      test a word (no argument clears it)\n" ++
  "tree             submit the grammar and draw the derivation tree\n" ++
  "show             print the grammar\n" ++
  "check            list rules broken by alphabet edits\n" ++
  "prune            delete rules broken by alphabet edits\n" ++
  "sample [N]       generate N random words locally\n" ++
  "save FILE        save the grammar as JSON\n" ++
  "load FILE        load a grammar from JSON\n" ++
  "help             show this help\n" ++
  "quit             leave"

/-- A command that takes symbols, at least one. -/
def ofSymbols (args : String) (command : List String → Command) : Command :=
  if args.isEmpty then .unknown "expected at least one symbol" else command (Text.words args)

/-- A command that takes a text, not an empty one. -/
def ofText (keyword args : String) (command : String → Command) : Command :=
  if args.isEmpty then .unknown (keyword ++ " requires an argument") else command args

/-- A command that takes an amount, one if nothing is given. -/
def ofAmount (args : String) : Command :=
  if args.isEmpty then .sample 1
  else
    match Text.natural? args with
    | some amount => .sample amount
    | none => .unknown ("not an amount: " ++ args)

/-- The command of a keyword and what it is given. -/
def ofKeyword (keyword args : String) : Command :=
  match keyword with
  | "t" | "terminal" => ofSymbols args .terminals
  | "n" | "nonterminal" => ofSymbols args .nonterminals
  | "rt" => ofSymbols args .removeTerminals
  | "rn" => ofSymbols args .removeNonterminals
  | "axiom" | "a" => ofText keyword args .start
  | "rule" | "r" => ofText keyword args .rule
  | "unrule" | "u" => ofText keyword args .unrule
  | "levels" | "l" => .levels args
  | "word" | "w" => .word args
  | "tree" => .tree
  | "show" | "s" => .display
  | "check" => .check
  | "prune" => .prune
  | "sample" => ofAmount args
  | "save" => ofText keyword args .save
  | "load" => ofText keyword args .load
  | "help" | "h" | "?" => .help
  | "quit" | "q" | "exit" => .quit
  | _ => .unknown keyword

def ofLine (line : String) : Command :=
  let line := Text.trim line
  if line.isEmpty || line.toList.head? == some '#' then .empty
  else
    let (keyword, args) := Text.cutBlank line
    ofKeyword keyword (Text.trim args)

end Command

end LinearGrammar
