import LinearGrammar.Proofs.Desk
import LinearGrammar.Proofs.Traffic

/-!
# A session with its files

In a session three things go on at once. Commands are run, the service answers when it likes, and the
files take in what is saved and give it back. Here a session is taken together with its files, and a
step runs a command in some world with these files, another world each time: so the service and the
draws may say anything at any moment, while the files go on from one command to the next. A command at
which the program breaks off makes no step.

Without the files a run is one of `LiveSession`, by `Run.live`.

The second half says of each part of the workbench which steps touch it, and what they make of it. The
grammar and the files are a matter of the command alone, the tree is a matter of what was asked for
and given, and the view is a matter of the words and the answers that it accepts.
-/

namespace LinearGrammar

open FileSystem (readText writeText Saved)

/-- Something that was asked for, and what came back. -/
abbrev Exchange := (d : Demand) × d.Reply

namespace World

variable {φ α : Type} [FileSystem φ]

/-- What a plan asks for in a world, and what it is given. -/
def exchange? (w : World φ) : Plan α → Option Exchange
  | .done _ | .crash => none
  | .ask d _ => some ⟨d, (w.meet d).1⟩

theorem yields_carryOut {w after : World φ} {plan : Plan α} {a : α}
    (h : w.carryOut plan = some (a, after)) : plan.Yields a := by
  cases plan with
  | done a => cases h; exact .done _
  | ask d resume => cases h; exact .ask d resume _
  | crash => cases h

end World

/-- A session with the checks that were called off, and the files around it. -/
structure Workbench (φ : Type) where
  live : LiveSession
  files : φ

variable {φ : Type}

namespace Workbench

def session (x : Workbench φ) : Session := x.live.session

/-- The grammar and the files, without the rest of the session. -/
def desk (x : Workbench φ) : Desk φ := ⟨x.session.grammar, x.files⟩

/-- A command is run, or something happens to a check. -/
inductive Event where
  | ran (c : Command) (lines : List String) (exchange? : Option Exchange)
  | checked (e : SessionEvent)

namespace Event

/-- The event as one of the session, whatever was asked for. -/
def inSession : Event → SessionEvent
  | .ran c lines _ => .ran c lines
  | .checked e => e

def command? (e : Event) : Option Command := e.inSession.command?

/-- The tree that a successful submission brought. -/
def drawn? : Event → Option Json
  | .ran .tree _ (some ⟨.submit _, .ok tree⟩) => some tree
  | _ => none

/-- Whether a saved grammar was read and accepted. -/
def isLoad : Event → Bool
  | .ran (.load _) _ (some ⟨.readFile _, text⟩) => (Grammar.ofFile? text).isSome
  | _ => false

/-- The file that was written, and what was written to it. -/
def written? : Event → Option (String × String)
  | .ran _ _ (some ⟨.writeFile path text, .ok ()⟩) => some (path, text)
  | _ => none

/-- The tree that was drawn last since a grammar was loaded. -/
def lastTree (events : List Event) : Option Json :=
  (events.reverse.takeWhile (!·.isLoad)).findSome? drawn?

theorem lastTree_concat (events : List Event) (e : Event) :
    lastTree (events ++ [e]) = if e.isLoad then none else e.drawn?.or (lastTree events) := by
  rw [lastTree, List.reverse_concat, List.takeWhile_cons]
  cases e.isLoad with
  | true => rfl
  | false =>
      simp only [Bool.not_false, if_true, List.findSome?_cons]
      cases e.drawn? <;> rfl

end Event

/-- Steps, each kept with what it led to. -/
abbrev History (φ : Type) := List (Event × Workbench φ)

/-- What happened in the session. -/
def inSession (history : History φ) : List SessionEvent := history.map (·.1.inSession)

def commands (history : History φ) : List Command := SessionEvent.commands (inSession history)

def printed (history : History φ) : List String := SessionEvent.printed (inSession history)

/-- The grammar and the files after each command, and what it wrote. -/
def records (history : History φ) : List (Desk φ × Option (String × String)) :=
  history.filterMap fun (e, x) => e.command?.map fun _ => (x.desk, e.written?)

theorem commands_append (history more : History φ) :
    commands (history ++ more) = commands history ++ commands more := by
  rw [commands, inSession, List.map_append]
  exact List.filterMap_append

theorem printed_append (history more : History φ) :
    printed (history ++ more) = printed history ++ printed more := by
  rw [printed, inSession, List.map_append]
  exact List.flatMap_append

theorem commands_concat (history : History φ) (e : Event) (x : Workbench φ) :
    commands (history ++ [(e, x)]) = commands history ++ e.command?.toList := by
  rw [commands_append]
  cases hc : e.inSession.command? <;>
    simp [commands, inSession, SessionEvent.commands, Event.command?, hc]

theorem records_concat (history : History φ) (e : Event) (x : Workbench φ) :
    records (history ++ [(e, x)]) =
      records history ++ (e.command?.map fun _ => (x.desk, e.written?)).toList := by
  have happend : records (history ++ [(e, x)]) = records history ++ records [(e, x)] :=
    List.filterMap_append
  rw [happend]
  cases hc : e.command? <;> simp [records, hc]

variable [FileSystem φ]

/-- One step. The world of a command may be any with these files; of the other steps none is a
command. -/
inductive Step : Workbench φ → Event → Workbench φ → Prop
  | run {x : Workbench φ} {w after : World φ} {c : Command} {lines : List String} {s : Session}
      (hfiles : w.files = x.files)
      (h : w.carryOut (x.session.execute c) = some ((lines, s), after)) :
      Step x (.ran c lines (w.exchange? (x.session.execute c)))
        ⟨⟨s, x.live.calledOff ++ x.session.calledOffBy c⟩, after.files⟩
  | check {x y : LiveSession} {e : SessionEvent} (files : φ) (h : LiveSession.Step x e y)
      (he : e.command? = none) : Step ⟨x, files⟩ (.checked e) ⟨y, files⟩

/-- A command that asks for one thing goes on with what it is given. -/
theorem Step.ask {x : Workbench φ} {w after : World φ} {c : Command} {d : Demand}
    {resume : d.Reply → Session.Result} {reply : d.Reply} (hfiles : w.files = x.files)
    (hplan : x.session.execute c = .ask d resume) (hmeet : w.meet d = (reply, after)) :
    Step x (.ran c (resume reply).1 (some ⟨d, reply⟩))
      ⟨⟨(resume reply).2, x.live.calledOff ++ x.session.calledOffBy c⟩, after.files⟩ := by
  have hrun : w.carryOut (x.session.execute c) = some (resume reply, after) := by
    rw [hplan, World.carryOut, hmeet]
  have hexchange : w.exchange? (x.session.execute c) = some ⟨d, reply⟩ := by
    rw [hplan, World.exchange?, hmeet]
  rw [← hexchange]
  exact .run hfiles hrun

/-- A saved grammar that is accepted takes the place of the one before. -/
theorem Step.load {x : Workbench φ} {w : World φ} {path text : String} {g : Grammar}
    (hfiles : w.files = x.files) (hread : readText w.files path = .ok text)
    (hfile : Grammar.ofFile? (.ok text) = some g) :
    Step x (.ran (.load path) (Session.grammarLines g) (some ⟨.readFile path, .ok text⟩))
      ⟨⟨{ x.session with grammar := g, tree := none },
        x.live.calledOff ++ x.session.calledOffBy (.load path)⟩, w.files⟩ := by
  have hmeet : w.meet (.readFile path) = (.ok text, w) := Prod.ext hread rfl
  have hstep := Step.ask (c := .load path) hfiles rfl hmeet
  simp only [Session.loadText_of_some hfile] at hstep
  exact hstep

/-- Any number of steps in any order. -/
inductive Run (start : Workbench φ) : History φ → Workbench φ → Prop
  | nil : Run start [] start
  | concat {history : History φ} {e : Event} {x y : Workbench φ} :
      Run start history x → Step x e y → Run start (history ++ [(e, y)]) y

theorem Run.trans {x y z : Workbench φ} {history more : History φ}
    (h : Run x history y) (hmore : Run y more z) : Run x (history ++ more) z := by
  induction hmore with
  | nil => rw [List.append_nil]; exact h
  | concat _ hstep ih =>
      rw [← List.append_assoc]
      exact ih.concat hstep

theorem Step.toRun {x y : Workbench φ} {e : Event} (h : Step x e y) : Run x [(e, y)] y :=
  .concat .nil h

/-- A session before its first command, with the files it finds. -/
def opening (g : Grammar) (files : φ) : Workbench φ := ⟨.opening g, files⟩

/-! ## Runs without the files -/

theorem Step.live {x y : Workbench φ} {e : Event} (h : Step x e y) :
    LiveSession.Step x.live e.inSession y.live := by
  cases h with
  | run hfiles h => exact .run (World.yields_carryOut h)
  | check files h he => exact h

theorem Run.live {x y : Workbench φ} {history : History φ} (h : Run x history y) :
    LiveSession.Run x.live (inSession history) y.live := by
  induction h with
  | nil => exact .nil
  | concat _ hstep ih =>
      rw [inSession, List.map_append]
      exact ih.concat hstep.live

/-! ## What a command does -/

theorem written?_exchange? (w : World φ) (s : Session) (c : Command) (lines : List String) :
    (Event.ran c lines (w.exchange? (s.execute c))).written? =
      Desk.written? ⟨s.grammar, w.files⟩ c := by
  cases c with
  | start symbol =>
      rw [Session.execute]
      cases s.grammar.chooseStart symbol <;> rfl
  | rule line =>
      rw [Session.execute]
      cases s.grammar.addRules line <;> rfl
  | tree =>
      rw [Session.execute]
      cases s.grammar.toSubmission <;> rfl
  | sample amount =>
      rw [Session.execute]
      cases s.grammar.sample amount <;> rfl
  | save path =>
      simp only [Session.execute, World.exchange?, World.meet, Desk.written?, Desk.savedText]
      cases writeText w.files path s.grammar.snapshot.toJson.pretty with
      | mk reply files => cases reply <;> rfl
  | terminals | nonterminals | removeTerminals | removeNonterminals | unrule | levels | word
  | display | check | prune | load | help | quit | empty | unknown => rfl

theorem tree_unrule (s : Session) (line : String) : (s.unrule line).2.tree = s.tree := by
  unfold Session.unrule
  simp only []
  split <;> rfl

theorem tree_setWord (s : Session) (text : String) : (s.setWord text).2.tree = s.tree := by
  unfold Session.setWord
  split <;> rfl

/-- A submission that succeeds brings a tree, a grammar that is loaded puts it away, and nothing else
touches it. -/
theorem tree_carryOut {w after : World φ} {s : Session} {c : Command} {result : Session.Result}
    (h : w.carryOut (s.execute c) = some (result, after)) (lines : List String) :
    result.2.tree =
      if (Event.ran c lines (w.exchange? (s.execute c))).isLoad then none
      else (Event.ran c lines (w.exchange? (s.execute c))).drawn?.or s.tree := by
  cases c with
  | start symbol =>
      rw [Session.execute] at h ⊢
      cases hstart : s.grammar.chooseStart symbol <;> rw [hstart] at h <;> cases h <;> rfl
  | rule line =>
      rw [Session.execute] at h ⊢
      cases hadd : s.grammar.addRules line <;> rw [hadd] at h <;> cases h <;> rfl
  | unrule line =>
      obtain ⟨rfl, rfl⟩ := World.eq_of_carryOut_done h
      exact tree_unrule s line
  | word text =>
      cases h
      exact tree_setWord s text
  | tree =>
      rw [Session.execute] at h ⊢
      cases hready : s.grammar.toSubmission with
      | error e => rw [hready] at h; cases h; rfl
      | ok submission =>
          rw [hready] at h
          cases h
          simp only [World.exchange?, World.meet]
          cases w.service.submit w.submissions submission <;> rfl
  | sample amount =>
      have hshow : ∀ samples, (s.showSamples samples).2.tree = s.tree := fun samples => by
        cases samples <;> rfl
      rw [Session.execute] at h ⊢
      cases hroom : s.grammar.sample amount with
      | none => rw [hroom] at h; cases h
      | some run =>
          rw [hroom] at h
          cases h
          exact hshow _
  | save path =>
      simp only [Session.execute, World.carryOut, World.meet] at h
      cases hwrite : writeText w.files path s.grammar.snapshot.toJson.pretty with
      | mk reply files =>
          rw [hwrite] at h
          cases reply <;> cases h <;> rfl
  | load path =>
      cases h
      -- Whether the load goes well hangs on the text alone, and not on the session that loads it.
      have hloaded : (Event.ran (.load path) lines (w.exchange? (s.execute (.load path)))).isLoad =
          (Grammar.ofFile? (readText w.files path)).isSome := rfl
      have hdrawn :
          (Event.ran (.load path) lines (w.exchange? (s.execute (.load path)))).drawn? = none := rfl
      rw [hloaded, hdrawn]
      simp only []
      cases hfile : Grammar.ofFile? (readText w.files path) with
      | some g => rw [Session.loadText_of_some hfile]; rfl
      | none =>
          obtain ⟨e, he⟩ := Session.loadText_of_none hfile s
          rw [he]
          rfl
  | terminals | nonterminals | removeTerminals | removeNonterminals | levels | display | check
  | prune | help | quit | empty | unknown => cases h; rfl

/-! ## What a step leaves alone -/

/-- The sessions differ in the word and its checks at most. -/
def SameGrammar (s t : Session) : Prop :=
  t = { s with view := t.view, inFlight := t.inFlight, replies := t.replies }

theorem sameGrammar_of_check {x y : LiveSession} {e : SessionEvent} (h : LiveSession.Step x e y)
    (he : e.command? = none) : SameGrammar x.session y.session := by
  cases h with
  | run => cases he
  | finish hticket outcome => rw [Session.answer_of_some hticket]; rfl
  | vanish | slip => rfl
  | receive hreplies => rw [Session.receive_of_cons hreplies]; rfl

theorem view_of_check {x y : LiveSession} {e : SessionEvent} (h : LiveSession.Step x e y)
    (he : e.command? = none)
    (hdropped : ∀ reply lines, e = .received reply lines →
      (x.session.view.apply reply.seq reply.outcome).1 = false) :
    y.session.view = x.session.view := by
  cases h with
  | run => cases he
  | finish hticket outcome => rw [Session.answer_of_some hticket]
  | vanish | slip => rfl
  | @receive _ reply rest hreplies =>
      have hno := hdropped reply _ rfl
      rw [← Bool.not_eq_true, WordView.apply_fst_eq_true_iff] at hno
      rw [Session.receive_of_not_awaited hreplies hno]

theorem query_apply (v : WordView) (seq : Nat) (outcome : Outcome CheckResponse) :
    (v.apply seq outcome).2.query = v.query := by
  unfold WordView.apply
  split <;> rfl

theorem query_of_check {x y : LiveSession} {e : SessionEvent} (h : LiveSession.Step x e y)
    (he : e.command? = none) : y.session.view.query = x.session.view.query := by
  cases h with
  | run => cases he
  | finish hticket outcome => rw [Session.answer_of_some hticket]
  | vanish | slip => rfl
  | @receive _ reply rest hreplies =>
      rw [Session.receive_of_cons hreplies]
      exact query_apply x.session.view reply.seq reply.outcome

/-- The event is a word that the view accepts, or an answer that it accepts. -/
def Event.Counts (v : WordView) : Event → Prop
  | .ran (.word text) _ _ => ∃ accepted, v.setQuery text = .ok accepted
  | .checked (.received reply _) => (v.apply reply.seq reply.outcome).1 = true
  | _ => False

section Steps

variable {x y : Workbench φ} {e : Event}

theorem Step.desk (h : Step x e y) : y.desk = e.command?.elim x.desk x.desk.run := by
  cases h with
  | run hfiles h =>
      refine (World.desk_carryOut h).trans ?_
      rw [hfiles]
      rfl
  | @check a b e files hcheck he =>
      have hsame : b.session = _ := sameGrammar_of_check hcheck he
      have hnone : (Event.checked e).command? = none := he
      rw [hnone]
      change (⟨b.session.grammar, files⟩ : Desk φ) = ⟨a.session.grammar, files⟩
      rw [hsame]

theorem Step.written? {c : Command} (h : Step x e y) (hc : e.command? = some c) :
    e.written? = x.desk.written? c := by
  cases h with
  | run hfiles h =>
      cases hc
      rw [written?_exchange?, hfiles]
      rfl
  | check files h he => cases he.symm.trans hc

theorem Step.files (h : Step x e y) : y.files = (e.command?.elim x.desk x.desk.run).files :=
  congrArg Desk.files h.desk

theorem Step.saved [LawfulFileSystem φ] {path text : String} (h : Step x e y)
    (hwritten : e.written? = some (path, text)) : Saved x.files path text y.files := by
  cases hc : e.command? with
  | none =>
      cases h with
      | run => cases hc
      | check => cases hwritten
  | some c =>
      rw [h.files, hc]
      exact Desk.saved_run ((h.written? hc).symm.trans hwritten)

theorem Step.tree (h : Step x e y) :
    y.session.tree = if e.isLoad then none else e.drawn?.or x.session.tree := by
  cases h with
  | run hfiles h => exact tree_carryOut h _
  | @check a b e files hcheck he =>
      have hsame : b.session = _ := sameGrammar_of_check hcheck he
      change b.session.tree = a.session.tree
      rw [hsame]

theorem Step.view (h : Step x e y) (he : ¬ e.Counts x.session.view) :
    y.session.view = x.session.view := by
  cases h with
  | @run _ w after c lines s hfiles h =>
      by_cases hc : ∀ text, c ≠ .word text
      · exact (Session.sameWord_execute hc (World.yields_carryOut h)).view
      · obtain ⟨text, rfl⟩ := by simpa using hc
        cases hset : x.session.view.setQuery text with
        | ok accepted => exact absurd ⟨accepted, hset⟩ he
        | error e =>
            rw [Session.execute_word, Session.setWord_of_refused hset] at h
            cases h
            rfl
  | @check a b _ files hcheck hran =>
      refine view_of_check hcheck hran fun reply lines heq => ?_
      rw [heq] at he
      exact Bool.eq_false_iff.2 he

theorem Step.query (h : Step x e y) (he : ∀ text, e.command? ≠ some (.word text)) :
    y.session.view.query = x.session.view.query := by
  cases h with
  | @run _ w after c lines s hfiles h =>
      have hc : ∀ text, c ≠ .word text := fun text htext => he text (congrArg some htext)
      exact congrArg WordView.query (Session.sameWord_execute hc (World.yields_carryOut h)).view
  | check files hcheck hran => exact query_of_check hcheck hran

end Steps

/-! ## Runs -/

section Runs

variable {start x : Workbench φ} {history : History φ}

theorem Run.desk (h : Run start history x) : x.desk = start.desk.runAll (commands history) := by
  induction h with
  | nil => rfl
  | @concat history e _ y _ hstep ih =>
      rw [hstep.desk, ih, commands_concat]
      cases e.command? with
      | none => rw [Option.toList_none, List.append_nil, Option.elim_none]
      | some c => rw [Option.toList_some, Desk.runAll_concat, Option.elim_some]

theorem Run.records (h : Run start history x) :
    records history = start.desk.records (commands history) := by
  induction h with
  | nil => rfl
  | @concat history e x y hrun hstep ih =>
      rw [records_concat, commands_concat, ih]
      cases hc : e.command? with
      | none =>
          rw [Option.map_none, Option.toList_none, Option.toList_none, List.append_nil,
            List.append_nil]
      | some c =>
          rw [Option.map_some, Option.toList_some, Option.toList_some, Desk.records_concat,
            ← hrun.desk, ← hstep.written? hc, hstep.desk, hc, Option.elim_some]

theorem Run.tree (h : Run start history x) (hstart : start.session.tree = none) :
    x.session.tree = Event.lastTree (history.map (·.1)) := by
  induction h with
  | nil => exact hstart
  | @concat history e _ y _ hstep ih =>
      rw [hstep.tree, ih, List.map_append, List.map_singleton, Event.lastTree_concat]

end Runs

end Workbench

end LinearGrammar
