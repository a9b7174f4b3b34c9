import LinearGrammar.Proofs.Inputs
import LinearGrammar.Proofs.JsonReading

/-!
# What the service says stays out of the grammar

What goes on in a session at once is kept apart. The grammar and the files are those of
`Desk.records`, which knows the commands and nothing else, so two services that are told the same
commands leave the same grammar after each of them and the same saved texts. The word and its verdict
belong to the command `word` and to the answers that are awaited. The tree is the one that was drawn
last, and loading a grammar puts it away.

`Separate` says this of one step, and every step of every run is separate. Running the commands one by
one, with nothing in between, is the simplest run of all; what the program does with an input or a
script is another one. Nothing of this asks how the file system works. Only that a saved text can be
read again, while the other files are what they were, needs one that is lawful.
-/

namespace LinearGrammar

open FileSystem (Handle readText writeText Saved)

variable {φ : Type}

namespace Workbench

/-! ## What keeps apart -/

/-- A step keeps to its own part of the workbench. -/
structure Separate (x : Workbench φ) (e : Event) (y : Workbench φ) : Prop where
  /-- Only the command `word` changes the word. -/
  query : (∀ text, e.command? ≠ some (.word text)) →
    y.session.view.query = x.session.view.query
  /-- Only words and answers that are accepted change anything of what is shown of the word. -/
  view : ¬ e.Counts x.session.view → y.session.view = x.session.view
  /-- Whatever comes of a check, failed or not, leaves everything else as it was. -/
  check : e.command? = none → y.desk = x.desk ∧ y.session.tree = x.session.tree
  /-- A submission changes the tree at most, and not if it was refused or failed. -/
  submission : e.command? = some .tree →
    y.desk = x.desk ∧ (e.drawn? = none → y.session.tree = x.session.tree)
  /-- A saved grammar that cannot be read or is not accepted changes nothing. -/
  load : ∀ path, e.command? = some (.load path) → e.isLoad = false →
    y.desk = x.desk ∧ y.session.tree = x.session.tree
  /-- Only the command `save` touches the files, whatever else is done with them. -/
  files : (∀ path, e.command? ≠ some (.save path)) → y.files = x.files

theorem Event.drawn?_of_other {e : Event} (he : e.command? ≠ some .tree) : e.drawn? = none := by
  unfold drawn?
  split
  · exact absurd rfl he
  · rfl

theorem Event.isLoad_of_other {e : Event} (he : ∀ path, e.command? ≠ some (.load path)) :
    e.isLoad = false := by
  unfold isLoad
  split
  · exact absurd rfl (he _)
  · rfl

variable [FileSystem φ] {x y : Workbench φ} {e : Event}

theorem Step.tree_of_nothing (h : Step x e y) (hload : e.isLoad = false)
    (hdrawn : e.drawn? = none) : y.session.tree = x.session.tree := by
  rw [h.tree, hload, hdrawn]
  rfl

theorem Step.files_of_other (h : Step x e y) (he : ∀ path, e.command? ≠ some (.save path)) :
    y.files = x.files := by
  rw [h.files]
  cases hc : e.command? with
  | none => rfl
  | some c =>
      cases c with
      | save path => exact absurd hc (he path)
      | _ => rfl

theorem Step.desk_of_refused {path : String} (h : Step x e y)
    (hc : e.command? = some (.load path)) (hload : e.isLoad = false) : y.desk = x.desk := by
  have hdesk := h.desk
  rw [hc] at hdesk
  refine hdesk.trans ?_
  cases h with
  | check files hcheck he => cases he.symm.trans hc
  | @run _ w after c lines s hfiles hrun =>
      cases hc
      -- The file was read from the files before the step, so the desk finds no grammar in it either.
      have hno : Grammar.ofFile? (readText x.files path) = none := by
        rw [← hfiles]
        exact Option.not_isSome_iff_eq_none.1 (Bool.eq_false_iff.1 hload)
      have hedits := Grammar.editAll_load x.session.grammar (readText x.files path)
      rw [hno] at hedits
      exact congrArg (Desk.mk · x.files) hedits

theorem Step.separate (h : Step x e y) : Separate x e y where
  query := h.query
  view := h.view
  check hc := by
    refine ⟨by rw [h.desk, hc]; rfl, h.tree_of_nothing (Event.isLoad_of_other fun _ => ?_)
      (Event.drawn?_of_other ?_)⟩
    all_goals rw [hc]; exact (Option.some_ne_none _).symm
  submission hc := by
    refine ⟨by rw [h.desk, hc]; rfl, h.tree_of_nothing (Event.isLoad_of_other fun _ heq => ?_)⟩
    cases hc.symm.trans heq
  load path hc hload := by
    refine ⟨h.desk_of_refused hc hload, h.tree_of_nothing hload (Event.drawn?_of_other fun heq => ?_)⟩
    cases hc.symm.trans heq
  files := h.files_of_other

/-! ## Running one by one -/

/-- The grammar and the files after each of some commands that are run one by one, with no check
between them, and what was written. -/
def oneByOne (w : World φ) (s : Session) :
    List Command → List (Desk φ × Option (String × String))
  | [] => []
  | c :: rest =>
    match w.carryOut (s.execute c) with
    | none => []
    | some ((lines, t), after) =>
      (⟨t.grammar, after.files⟩, (Event.ran c lines (w.exchange? (s.execute c))).written?) ::
        oneByOne after t rest

theorem oneByOne_eq (w : World φ) (s : Session) {commands : List Command}
    (h : ∀ c ∈ commands, c.breaksOff = false) :
    oneByOne w s commands = Desk.records ⟨s.grammar, w.files⟩ commands := by
  induction commands generalizing w s with
  | nil => rfl
  | cons c rest ih =>
      have hgoes : w.carryOut (s.execute c) ≠ none := fun hnone =>
        absurd ((w.carryOut_eq_none_iff s c).1 hnone) (Bool.eq_false_iff.1 (h c List.mem_cons_self))
      obtain ⟨⟨⟨lines, t⟩, after⟩, hrun⟩ := Option.ne_none_iff_exists'.1 hgoes
      rw [oneByOne, hrun]
      simp only []
      rw [Desk.records, ih _ _ fun c' hc' => h c' (List.mem_cons_of_mem c hc'),
        written?_exchange?, ← World.desk_carryOut hrun]

theorem Step.breaksOff {c : Command} (h : Step x e y) (hc : e.command? = some c) :
    c.breaksOff = false := by
  cases h with
  | check files hcheck he => cases he.symm.trans hc
  | @run _ w after c' lines s hfiles hrun =>
      cases hc
      rw [Bool.eq_false_iff]
      intro hbreaks
      cases hrun.symm.trans ((w.carryOut_eq_none_iff _ _).2 hbreaks)

theorem Run.breaksOff {start : Workbench φ} {history : History φ} (h : Run start history x) :
    ∀ c ∈ commands history, c.breaksOff = false := by
  induction h with
  | nil => exact fun c hc => absurd hc List.not_mem_nil
  | @concat history e x y hrun hstep ih =>
      intro c hc
      rw [commands_concat, List.mem_append, Option.mem_toList] at hc
      exact hc.elim (ih c) hstep.breaksOff

/-! ## The whole session -/

/-- What came of a session is what some run of these commands comes to. -/
def IsRunOf (g : Grammar) (files : φ) (commands : List Command) (p : Progress φ) : Prop :=
  ∃ history calledOff, Run (opening g files) history ⟨⟨p.session, calledOff⟩, p.world.files⟩ ∧
    Workbench.commands history = commands ∧ Workbench.printed history = p.lines

/-- In whatever order commands are run and checks come to their ends, the grammar and the files after
each command and the texts that were written are those of the commands alone. So they are the same in
any two runs of the same commands, and the same as if the commands were run one by one. Every step
keeps to its own part, what was written is there, and the tree is the one that was drawn last since a
grammar was loaded. A session of the program is such a run of the commands of its input or its script,
which are known without the service. -/
theorem session_separation {g : Grammar} {files : φ} {history : History φ}
    (h : Run (opening g files) history x) :
    records history = Desk.records ⟨g, files⟩ (commands history) ∧
    (∀ history' y, Run (opening g files) history' y → commands history' = commands history →
      records history' = records history) ∧
    (∀ w : World φ, w.files = files →
      oneByOne w (opening g files).session (commands history) = records history) ∧
    (∀ e y, Step x e y → Separate x e y) ∧
    (∀ [LawfulFileSystem φ] e y, Step x e y → ∀ path text, e.written? = some (path, text) →
      Saved x.files path text y.files) ∧
    x.session.tree = Event.lastTree (history.map (·.1)) ∧
    (∀ (w : World φ) isTyped input, w.files = files →
      IsRunOf g files (Command.ofByteLines (Text.byteLines input))
        ((opening g files).session.runIn w isTyped input).1) ∧
    (∀ (w : World φ) handle, w.files = files →
      IsRunOf g files (Desk.script handle 0 [] ⟨g, files⟩)
        ((opening g files).session.runScript w handle).1) := by
  refine ⟨h.records, fun history' y hrun hsame => ?_, fun w hfiles => ?_,
    fun e y hstep => hstep.separate, fun e y hstep path text hwritten => hstep.saved hwritten,
    h.tree rfl, fun w isTyped input hfiles => ?_, fun w handle hfiles => ?_⟩
  · rw [hrun.records, hsame, h.records]
  · rw [oneByOne_eq w _ h.breaksOff, hfiles, h.records]
    rfl
  · subst hfiles
    exact (Session.concludes_runLines isTyped (Text.byteLines input) (opening g w.files).session
      w).reaches []
  · subst hfiles
    exact (Session.concludes_runScriptFrom handle 0 [] (opening g w.files).session w).reaches []

/-- A grammar with one rule. -/
def oneRule : Grammar :=
  ⟨⟨.terminal, ["a"]⟩, ⟨.nonterminal, ["S"]⟩, some "S", [⟨"S", ["a"]⟩], "1"⟩

/-- The text of its file. -/
def oneRuleText : String := oneRule.snapshot.toJson.pretty

/-- A directory with a file that holds no grammar. -/
def notes : Files := .ofEntries [("notes", Text.encode "S->a")]

/-- The directory after the grammar was saved. -/
def filed : Files := notes.put ⟨.working, "grammar"⟩ (Text.encode oneRuleText)

/-- A service that has this tree for every grammar. -/
def withTree (tree : Outcome Json) (files : Files) : World Files :=
  ⟨files, ⟨fun _ => .error (.status 500), fun _ _ => tree⟩, [], false, []⟩

/-- A moment of a session in which a word is tested. -/
def testing (files : Files) (verdict : Verdict) (tree : Option Json) (inFlight : Option Ticket)
    (replies : List CheckReply) : Workbench Files :=
  ⟨⟨⟨oneRule, ⟨"a", 1, verdict⟩, tree, inFlight, replies⟩, []⟩, files⟩

/-- A service refuses the first submission and draws a tree for the second one, while the check of the
word comes to its end. A file that holds no grammar leaves the tree where it is. -/
def drawnLast : History Files :=
  [(.ran (.word "a") [] none, testing notes (.pending 1) none (some ⟨1, "a"⟩) []),
    (.ran (.save "grammar") [] (some ⟨.writeFile "grammar" oneRuleText, .ok ()⟩),
      testing filed (.pending 1) none (some ⟨1, "a"⟩) []),
    (.checked (.finished (.error (.status 500))),
      testing filed (.pending 1) none none [⟨1, .error (.status 500)⟩]),
    (.ran .tree [report .tree (ServiceFailure.status 503).message]
        (some ⟨.submit oneRule.snapshot, .error (.status 503)⟩),
      testing filed (.pending 1) none none [⟨1, .error (.status 500)⟩]),
    (.checked (.received ⟨1, .error (.status 500)⟩
        (Session.verdictLines "a" (.error (.status 500)))),
      testing filed (.failed (.status 500)) none none []),
    (.ran (.load "grammar") (Session.grammarLines oneRule)
        (some ⟨.readFile "grammar", .ok oneRuleText⟩),
      testing filed (.failed (.status 500)) none none []),
    (.ran .tree Json.null.treeLines (some ⟨.submit oneRule.snapshot, .ok .null⟩),
      testing filed (.failed (.status 500)) (some .null) none []),
    (.ran (.load "notes") [report .file (LoadError.notSaved "notes" .malformed).message]
        (some ⟨.readFile "notes", .ok "S->a"⟩),
      testing filed (.failed (.status 500)) (some .null) none [])]

/-- The same commands, while the check goes on. Now the first submission brings a tree, which the
grammar that is loaded puts away, and the second one fails. -/
def drawnFirst : History Files :=
  [(.ran (.word "a") [] none, testing notes (.pending 1) none (some ⟨1, "a"⟩) []),
    (.ran (.save "grammar") [] (some ⟨.writeFile "grammar" oneRuleText, .ok ()⟩),
      testing filed (.pending 1) none (some ⟨1, "a"⟩) []),
    (.ran .tree Json.null.treeLines (some ⟨.submit oneRule.snapshot, .ok .null⟩),
      testing filed (.pending 1) (some .null) (some ⟨1, "a"⟩) []),
    (.ran (.load "grammar") (Session.grammarLines oneRule)
        (some ⟨.readFile "grammar", .ok oneRuleText⟩),
      testing filed (.pending 1) none (some ⟨1, "a"⟩) []),
    (.ran .tree [report .tree (ServiceFailure.status 503).message]
        (some ⟨.submit oneRule.snapshot, .error (.status 503)⟩),
      testing filed (.pending 1) none (some ⟨1, "a"⟩) []),
    (.ran (.load "notes") [report .file (LoadError.notSaved "notes" .malformed).message]
        (some ⟨.readFile "notes", .ok "S->a"⟩),
      testing filed (.pending 1) none (some ⟨1, "a"⟩) [])]

section Witness

variable (verdict : Verdict) (tree : Option Json) (inFlight : Option Ticket)
  (replies : List CheckReply)

theorem writeText_notes : writeText notes "grammar" oneRuleText = (.ok (), filed) := by
  have hplace : (notes.placeOf "grammar").toOption = some (.entry ⟨.working, "grammar"⟩ false) := by
    decide +kernel
  change notes.writePath "grammar" (Text.encode oneRuleText) = _
  rw [Files.writePath]
  cases hnamed : notes.placeOf "grammar" with
  | error fault => rw [hnamed] at hplace; cases hplace
  | ok place =>
      rw [hnamed] at hplace
      cases hplace
      rfl

theorem ofFile?_oneRuleText : Grammar.ofFile? (.ok oneRuleText) = some oneRule := by
  have hread : Json.readText Submission.read oneRuleText = .ok oneRule.snapshot := by
    rw [oneRuleText, Json.readText_pretty _ (Submission.isLegible_toJson _),
      Submission.read_ofJson]
  have hmade : (Grammar.ofSubmission oneRule.snapshot).toOption = some oneRule := by
    decide +kernel
  rw [Grammar.ofFile?, Submission.ofFile?, hread]
  exact hmade

theorem readText_notes : readText filed "notes" = .ok "S->a" := by
  have hread : (readText filed "notes").toOption = some "S->a" := by decide +kernel
  cases htext : readText filed "notes" with
  | error fault => rw [htext] at hread; cases hread
  | ok text => rw [htext] at hread; cases hread; rfl

theorem step_word : Step (opening oneRule notes) (.ran (.word "a") [] none)
    (testing notes (.pending 1) none (some ⟨1, "a"⟩) []) :=
  @Step.run Files _ (opening oneRule notes) (withTree (.ok .null) notes) _ (.word "a") [] _ rfl rfl

theorem step_save : Step (testing notes verdict tree inFlight replies)
    (.ran (.save "grammar") [] (some ⟨.writeFile "grammar" oneRuleText, .ok ()⟩))
    (testing filed verdict tree inFlight replies) := by
  have hmeet : (withTree (.ok .null) notes).meet (.writeFile "grammar" oneRuleText) =
      (.ok (), withTree (.ok .null) filed) := by
    rw [World.meet, withTree, writeText_notes]
    rfl
  exact Step.ask (x := testing notes verdict tree inFlight replies) (c := .save "grammar") rfl rfl
    hmeet

theorem step_load : Step (testing filed verdict tree inFlight replies)
    (.ran (.load "grammar") (Session.grammarLines oneRule)
      (some ⟨.readFile "grammar", .ok oneRuleText⟩))
    (testing filed verdict none inFlight replies) := by
  have hsaved : Saved notes "grammar" oneRuleText filed := by
    have hsaved := FileSystem.saved_writeText (φ := Files) (congrArg Prod.fst writeText_notes)
    rw [writeText_notes] at hsaved
    exact hsaved
  exact Step.load (x := testing filed verdict tree inFlight replies)
    (w := withTree (.ok .null) filed) rfl hsaved.reads ofFile?_oneRuleText

theorem step_tree (outcome : Outcome Json) : Step (testing filed verdict tree inFlight replies)
    (.ran .tree (Session.showTree ⟨oneRule, ⟨"a", 1, verdict⟩, tree, inFlight, replies⟩ outcome).1
      (some ⟨.submit oneRule.snapshot, outcome⟩))
    (testing filed verdict (outcome.toOption.or tree) inFlight replies) := by
  have hready : oneRule.toSubmission = .ok oneRule.snapshot := by
    rw [Grammar.toSubmission, if_neg (by decide +kernel), if_neg (by decide +kernel)]
  have hplan : (testing filed verdict tree inFlight replies).session.execute .tree =
      .ask (.submit oneRule.snapshot)
        (Session.showTree ⟨oneRule, ⟨"a", 1, verdict⟩, tree, inFlight, replies⟩) := by
    simp only [testing, session, Session.execute, hready]
  have hstep := Step.ask (w := withTree outcome filed) rfl hplan rfl
  cases outcome with
  | ok t => exact hstep
  | error e => exact hstep

theorem step_refused : Step (testing filed verdict tree inFlight replies)
    (.ran (.load "notes") [report .file (LoadError.notSaved "notes" .malformed).message]
      (some ⟨.readFile "notes", .ok "S->a"⟩))
    (testing filed verdict tree inFlight replies) := by
  have hmeet : (withTree (.ok .null) filed).meet (.readFile "notes") =
      (.ok "S->a", withTree (.ok .null) filed) := Prod.ext readText_notes rfl
  have hread : Json.readText Submission.read "S->a" = .error .malformed := by
    have htokens : Json.tokens "S->a" = [.bad] := by decide +kernel
    rw [Json.readText, htokens]
    rfl
  have hstep := Step.ask (x := testing filed verdict tree inFlight replies) (c := .load "notes")
    rfl rfl hmeet
  simp only [Session.loadText, hread] at hstep
  exact hstep

end Witness

theorem run_drawnLast : Run (opening oneRule notes) drawnLast
    (testing filed (.failed (.status 500)) (some .null) none []) := by
  have hfinish : Step (testing filed (.pending 1) none (some ⟨1, "a"⟩) [])
      (.checked (.finished (.error (.status 500))))
      (testing filed (.pending 1) none none [⟨1, .error (.status 500)⟩]) :=
    .check filed (.finish rfl _) rfl
  have hverdict : Step (testing filed (.pending 1) none none [⟨1, .error (.status 500)⟩])
      (.checked (.received ⟨1, .error (.status 500)⟩
        (Session.verdictLines "a" (.error (.status 500)))))
      (testing filed (.failed (.status 500)) none none []) :=
    .check filed (.receive rfl) rfl
  exact step_word.toRun.concat (step_save _ _ _ _) |>.concat hfinish
    |>.concat (step_tree _ none _ _ (.error (.status 503))) |>.concat hverdict
    |>.concat (step_load _ _ _ _) |>.concat (step_tree _ none _ _ (.ok .null))
    |>.concat (step_refused _ _ _ _)

theorem run_drawnFirst : Run (opening oneRule notes) drawnFirst
    (testing filed (.pending 1) none (some ⟨1, "a"⟩) []) :=
  step_word.toRun.concat (step_save _ _ _ _) |>.concat (step_tree _ none _ _ (.ok .null))
    |>.concat (step_load _ _ _ _) |>.concat (step_tree _ none _ _ (.error (.status 503)))
    |>.concat (step_refused _ _ _ _)

/-- Two services make the same of the grammar and the files, and leave different trees. -/
theorem session_separation_two_services :
    records drawnFirst = records drawnLast ∧
      Event.lastTree (drawnLast.map (·.1)) = some .null ∧
      Event.lastTree (drawnFirst.map (·.1)) = none ∧ Saved notes "grammar" oneRuleText filed := by
  obtain ⟨-, hsame, -, -, -, hlast, -⟩ := session_separation run_drawnLast
  obtain ⟨-, -, -, -, -, hfirst, -⟩ := session_separation run_drawnFirst
  obtain ⟨-, -, -, -, hsaved, -⟩ := session_separation step_word.toRun
  exact ⟨hsame drawnFirst _ run_drawnFirst rfl, hlast.symm, hfirst.symm,
    hsaved _ _ (step_save _ _ _ _) _ _ rfl⟩

end Workbench

end LinearGrammar
