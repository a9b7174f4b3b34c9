import LinearGrammar.Proofs.LastQuery
import LinearGrammar.Session.Basic

/-!
# Checks on their way

Between a word and its verdict lie a check that is outstanding, an answer that waits in the queue and
the moment in which it is received. Meanwhile other commands are run, other words are typed in, and a
check that was called off may still put its answer into the queue. `Step` has one case for each thing
that can happen next, and a `Run` is any number of them in any order.

The lemmas before say what each step does to a session, so that nothing later has to open a command
or an answer again. Commands come down to two: a new word, and all the others, which leave the word
alone.
-/

namespace LinearGrammar

/-- The plan comes to the result, after some reply if it asks for one. A crash comes to nothing. -/
inductive Plan.Yields {α : Type} : Plan α → α → Prop where
  | done (a : α) : Yields (.done a) a
  | ask (d : Demand) (resume : d.Reply → α) (reply : d.Reply) :
      Yields (.ask d resume) (resume reply)

theorem Plan.eq_of_yields_done {α : Type} {a b : α} (h : (Plan.done a).Yields b) : b = a := by
  cases h
  rfl

/-! ## What a new word does to the view -/

namespace WordView

theorem hasBlank_of_refused {v : WordView} {text : String} {e : EditError}
    (h : v.setQuery text = .error e) : Text.hasBlank text = true := by
  unfold setQuery at h
  split at h
  · assumption
  · simp only [] at h
    split at h <;> cases h

theorem setQuery_eq_ok {v view : WordView} {text : String} {ticket : Option Ticket}
    (h : v.setQuery text = .ok (ticket, view)) :
    view.query = text ∧ view.latest = v.latest + 1 ∧
      (view.isPending = true ↔ text ≠ "") ∧
      ticket = if text = "" then none else some ⟨v.latest + 1, text⟩ := by
  unfold setQuery at h
  split at h
  · cases h
  · simp only [] at h
    split at h
    · next hempty =>
        have htext : text = "" := String.isEmpty_iff.1 hempty
        cases h
        subst htext
        exact ⟨rfl, rfl, ⟨nofun, fun hne => absurd rfl hne⟩, rfl⟩
    · next hempty =>
        have htext : text ≠ "" := fun he => hempty (String.isEmpty_iff.2 he)
        cases h
        exact ⟨rfl, rfl, ⟨fun _ => htext, fun _ => rfl⟩, (if_neg htext).symm⟩

/-- A view waits for the answer to its last edit and to no other. -/
theorem eq_editCount_of_pending {events : List WordEvent} {seq : Nat}
    (h : (ofHistory events).verdict = .pending seq) : seq = editCount events := by
  unfold ofHistory at h
  split at h
  · cases h
  · unfold verdictSince at h
    split at h
    · cases h
    · split at h
      · cases h; rfl
      · unfold Verdict.ofOutcome at h
        split at h
        · cases h
        · split at h <;> cases h

end WordView

/-! ## What a command does to the word -/

namespace Session

/-- The sessions differ in the grammar and the tree at most. -/
def SameWord (s t : Session) : Prop := t = { s with grammar := t.grammar, tree := t.tree }

theorem SameWord.view {s t : Session} (h : SameWord s t) : t.view = s.view := by
  rw [h]

theorem SameWord.inFlight {s t : Session} (h : SameWord s t) : t.inFlight = s.inFlight := by
  rw [h]

theorem SameWord.replies {s t : Session} (h : SameWord s t) : t.replies = s.replies := by
  rw [h]

theorem sameWord_unrule (s : Session) (line : String) : SameWord s (s.unrule line).2 := by
  unfold unrule
  simp only []
  split <;> rfl

theorem sameWord_showTree (s : Session) (outcome : Outcome Json) :
    SameWord s (s.showTree outcome).2 := by
  cases outcome <;> rfl

theorem sameWord_showSamples (s : Session) (samples : Except SampleError (List Sample)) :
    SameWord s (s.showSamples samples).2 := by
  cases samples <;> rfl

theorem sameWord_loadText {s : Session} {path : String} {text : Except FileFault String}
    {result : Result} (h : s.loadText path text = .ok result) : SameWord s result.2 := by
  unfold loadText at h
  split at h
  · cases h
  · split at h
    · cases h
    · split at h
      · cases h
      · cases h; rfl

/-- Only a new word touches the view, the outstanding check or the queue. -/
theorem sameWord_execute {s : Session} {c : Command} {result : Result}
    (hc : ∀ text, c ≠ .word text) (h : (s.execute c).Yields result) : SameWord s result.2 := by
  cases c with
  | word text => exact absurd rfl (hc text)
  | terminals | nonterminals | removeTerminals | removeNonterminals | levels | display | check |
      prune | help | quit | empty | unknown => cases h; rfl
  | start symbol =>
      rw [execute] at h
      split at h <;> cases h <;> rfl
  | rule line =>
      rw [execute] at h
      split at h <;> cases h <;> rfl
  | unrule line =>
      rw [Plan.eq_of_yields_done h]
      exact sameWord_unrule s line
  | tree =>
      rw [execute] at h
      split at h
      · cases h; rfl
      · cases h; exact sameWord_showTree s _
  | sample amount =>
      rw [execute] at h
      split at h
      · cases h
      · cases h; exact sameWord_showSamples s _
  | save path =>
      cases h with
      | ask _ _ reply => cases reply <;> rfl
  | load path =>
      cases h with
      | ask _ _ text =>
          simp only []
          split
          · next hload => exact sameWord_loadText hload
          · rfl

theorem execute_word (s : Session) (text : String) :
    s.execute (.word text) = .done (s.setWord text) := rfl

theorem setWord_of_accepted {s : Session} {text : String} {ticket : Option Ticket}
    {view : WordView} (h : s.view.setQuery text = .ok (ticket, view)) :
    s.setWord text = ([], { s with view := view, inFlight := ticket }) := by
  rw [setWord, h]

theorem setWord_of_refused {s : Session} {text : String} {e : EditError}
    (h : s.view.setQuery text = .error e) :
    s.setWord text = ([report .word e.message], s) := by
  rw [setWord, h]

/-! ## What an answer does -/

theorem answer_of_some {s : Session} {ticket : Ticket} (h : s.inFlight = some ticket)
    (outcome : Outcome CheckResponse) :
    s.answer outcome =
      { s with inFlight := none, replies := s.replies ++ [⟨ticket.seq, outcome⟩] } := by
  rw [answer, h]

theorem receive_of_cons {s : Session} {reply : CheckReply} {rest : List CheckReply}
    (h : s.replies = reply :: rest) :
    s.receive = { s with replies := rest }.take reply := by
  rw [receive, h]

/-- What is printed when the verdict on a word is known. -/
def verdictLines (word : String) (outcome : Outcome CheckResponse) : List String :=
  match outcome.bind Derivation.ofResponse with
  | .error e => [report .word e.message, word ++ " ?"]
  | .ok d =>
    if d.steps.isEmpty then [word ++ " ∉ L(G)"]
    else d.root :: (d.steps.map WordView.stepLine ++ [word ++ " ∈ L(G)"])

theorem getLast?_verdictLines (word : String) (outcome : Outcome CheckResponse) :
    ∃ mark ∈ [" ∈ L(G)", " ∉ L(G)", " ?"],
      (verdictLines word outcome).getLast? = some (word ++ mark) := by
  unfold verdictLines
  split
  · exact ⟨" ?", by simp, rfl⟩
  · split
    · exact ⟨" ∉ L(G)", by simp, rfl⟩
    · exact ⟨" ∈ L(G)", by simp, by rw [← List.cons_append, List.getLast?_concat]⟩

theorem verdictLines_ne_nil (word : String) (outcome : Outcome CheckResponse) :
    verdictLines word outcome ≠ [] := by
  obtain ⟨mark, -, hlast⟩ := getLast?_verdictLines word outcome
  intro hnil
  rw [hnil] at hlast
  cases hlast

-- `take` reads the view after the answer, a verdict of `ofOutcome`; by cases on the outcome the two
-- agree line by line.
theorem take_of_awaited {s : Session} {reply : CheckReply} (hseq : reply.seq = s.view.latest)
    (hpending : s.view.isPending = true) :
    s.take reply =
      (verdictLines s.view.query reply.outcome,
        { s with view := { s.view with verdict := .ofOutcome reply.outcome } }) := by
  have happly : s.view.apply reply.seq reply.outcome =
      (true, { s.view with verdict := .ofOutcome reply.outcome }) := by
    rw [WordView.apply, hseq, hpending, decide_eq_true rfl]
    rfl
  simp only [take, happly, if_true, verdictLines, Verdict.ofOutcome, WordView.lines]
  cases reply.outcome.bind Derivation.ofResponse with
  | error e => rfl
  | ok d =>
      simp only []
      cases d.steps.isEmpty <;> rfl

theorem take_of_not_awaited {s : Session} {reply : CheckReply}
    (h : ¬ (reply.seq = s.view.latest ∧ s.view.isPending = true)) :
    s.take reply = ([], s) := by
  have happly : s.view.apply reply.seq reply.outcome = (false, s.view) := by
    rw [WordView.apply, if_neg]
    simpa using h
  simp only [take, happly]
  rfl

theorem receive_of_awaited {s : Session} {reply : CheckReply} {rest : List CheckReply}
    (h : s.replies = reply :: rest) (hseq : reply.seq = s.view.latest)
    (hpending : s.view.isPending = true) :
    s.receive =
      (verdictLines s.view.query reply.outcome,
        { s with
          replies := rest
          view := { s.view with verdict := .ofOutcome reply.outcome } }) := by
  have htake := take_of_awaited (s := ⟨s.grammar, s.view, s.tree, s.inFlight, rest⟩) hseq hpending
  rw [receive_of_cons h, htake]

theorem receive_of_not_awaited {s : Session} {reply : CheckReply} {rest : List CheckReply}
    (h : s.replies = reply :: rest)
    (hdrop : ¬ (reply.seq = s.view.latest ∧ s.view.isPending = true)) :
    s.receive = ([], { s with replies := rest }) := by
  have htake := take_of_not_awaited (s := ⟨s.grammar, s.view, s.tree, s.inFlight, rest⟩) hdrop
  rw [receive_of_cons h, htake]

end Session

/-! ## Steps -/

/-- A session, and the checks that were called off and have not come to an end. -/
structure LiveSession where
  session : Session
  calledOff : List Ticket

/-- Something that happens in a session, with the lines that are printed. -/
inductive SessionEvent where
  | ran (c : Command) (lines : List String)
  /-- The outstanding check came to its end. -/
  | finished (outcome : Outcome CheckResponse)
  /-- A check that was called off came to its end, and may have been answered all the same. -/
  | gone (ticket : Ticket) (outcome? : Option (Outcome CheckResponse))
  | received (reply : CheckReply) (lines : List String)

namespace SessionEvent

/-- What an event tells the view. -/
def wordEvent? : SessionEvent → Option WordEvent
  | .ran (.word text) _ => some (.edit text)
  | .received reply _ => some (.answer reply.seq reply.outcome)
  | _ => none

/-- The number that a verdict was printed for. -/
def verdict? : SessionEvent → Option Nat
  | .received reply (_ :: _) => some reply.seq
  | _ => none

def lines : SessionEvent → List String
  | .ran _ lines | .received _ lines => lines
  | .finished _ | .gone _ _ => []

def printed (events : List SessionEvent) : List String := events.flatMap lines

def command? : SessionEvent → Option Command
  | .ran c _ => some c
  | _ => none

def commands (events : List SessionEvent) : List Command := events.filterMap command?

def history (events : List SessionEvent) : List WordEvent := events.filterMap wordEvent?

/-- How many verdicts were printed for a number. -/
def verdicts (events : List SessionEvent) (seq : Nat) : Nat :=
  (events.filterMap verdict?).count seq

theorem wordEvent?_ran_of_other {c : Command} (hc : ∀ text, c ≠ .word text)
    (lines : List String) : (SessionEvent.ran c lines).wordEvent? = none := by
  cases c with
  | word text => exact absurd rfl (hc text)
  | _ => rfl

theorem history_concat (events : List SessionEvent) (e : SessionEvent) :
    history (events ++ [e]) = history events ++ e.wordEvent?.toList := by
  rw [history, List.filterMap_append, history]
  cases h : e.wordEvent? <;> simp [h]

theorem history_concat_of_none {e : SessionEvent} (he : e.wordEvent? = none)
    (events : List SessionEvent) : history (events ++ [e]) = history events := by
  rw [history_concat, he, Option.toList_none, List.append_nil]

theorem verdicts_concat (events : List SessionEvent) (e : SessionEvent) (seq : Nat) :
    verdicts (events ++ [e]) seq =
      verdicts events seq + if e.verdict? = some seq then 1 else 0 := by
  rw [verdicts, List.filterMap_append, List.count_append, verdicts]
  cases h : e.verdict? <;> simp [h, List.count_singleton]

end SessionEvent

/-- The check that a command calls off. -/
def Session.calledOffBy (s : Session) : Command → List Ticket
  | .word text =>
    match s.view.setQuery text with
    | .ok _ => s.inFlight.toList
    | .error _ => []
  | _ => []

theorem Session.calledOffBy_of_other {s : Session} {c : Command} (hc : ∀ text, c ≠ .word text) :
    s.calledOffBy c = [] := by
  cases c with
  | word text => exact absurd rfl (hc text)
  | _ => rfl

namespace LiveSession

/-- One step of a session: a command is run, the outstanding check ends and its answer goes into the
queue, a check that was called off ends without an answer or slips one into the queue, or the oldest
answer is received. -/
inductive Step : LiveSession → SessionEvent → LiveSession → Prop where
  | run {x : LiveSession} {c : Command} {lines : List String} {s : Session}
      (h : (x.session.execute c).Yields (lines, s)) :
      Step x (.ran c lines) ⟨s, x.calledOff ++ x.session.calledOffBy c⟩
  | finish {x : LiveSession} {ticket : Ticket} (h : x.session.inFlight = some ticket)
      (outcome : Outcome CheckResponse) :
      Step x (.finished outcome) ⟨x.session.answer outcome, x.calledOff⟩
  | vanish {s : Session} {before after : List Ticket} {ticket : Ticket} :
      Step ⟨s, before ++ ticket :: after⟩ (.gone ticket none) ⟨s, before ++ after⟩
  | slip {s : Session} {before after : List Ticket} {ticket : Ticket}
      (outcome : Outcome CheckResponse) :
      Step ⟨s, before ++ ticket :: after⟩ (.gone ticket (some outcome))
        ⟨{ s with replies := s.replies ++ [⟨ticket.seq, outcome⟩] }, before ++ after⟩
  | receive {x : LiveSession} {reply : CheckReply} {rest : List CheckReply}
      (h : x.session.replies = reply :: rest) :
      Step x (.received reply x.session.receive.1) ⟨x.session.receive.2, x.calledOff⟩

/-- Any number of steps in any order. -/
inductive Run (start : LiveSession) : List SessionEvent → LiveSession → Prop where
  | nil : Run start [] start
  | concat {events : List SessionEvent} {e : SessionEvent} {x y : LiveSession} :
      Run start events x → Step x e y → Run start (events ++ [e]) y

theorem Step.toRun {x y : LiveSession} {e : SessionEvent} (h : Step x e y) : Run x [e] y :=
  .concat .nil h

theorem Run.trans {x y z : LiveSession} {events more : List SessionEvent}
    (h : Run x events y) (hmore : Run y more z) : Run x (events ++ more) z := by
  induction hmore with
  | nil => rw [List.append_nil]; exact h
  | concat _ hstep ih =>
      rw [← List.append_assoc]
      exact ih.concat hstep

/-- A session before its first command. -/
def opening (g : Grammar) : LiveSession := ⟨{ Session.initial with grammar := g }, []⟩

end LiveSession

end LinearGrammar
