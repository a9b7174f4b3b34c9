import LinearGrammar.Proofs.Workbench
import LinearGrammar.Session.Script

/-!
# What the program does with its input is a run

The program reads lines, from an input or from a script that may change while it is read, and between
them it lets answers come in. Here it is shown that this is a run of the workbench, which commands are
run in it and what it prints. `Reaches` says so of one stretch of a session, and stretches can be put
together. An input that is finished leaves nothing on its way: the program waits for the outstanding
check, and receives what is in the queue.

Which commands an input holds is known from its lines. Those of a script are known from the grammar and
the files with which it starts, although the script may write its own file: what it writes is a
matter of its commands again. `Desk.script` reads a script in this way, without a session or a service.
-/

namespace LinearGrammar

open FileSystem (Handle readPiece lt_offsetLimit_of_readPiece)

variable {φ : Type}

namespace Command

/-- The command that is run at a line of input. A line that is no text has none, nor has a `quit`: the
input ends there. Nor has a line at which the program breaks off. -/
def ofByteLine? (line : List UInt8) : Option Command :=
  match Text.decode line with
  | .error _ => none
  | .ok text =>
    match ofLine text with
    | .quit => none
    | c => if c.breaksOff then none else some c

/-- The commands that are run at the lines of an input, up to its end. -/
def ofByteLines : List (List UInt8) → List Command
  | [] => []
  | line :: rest =>
    match ofByteLine? line with
    | none => []
    | some c => c :: ofByteLines rest

end Command

namespace Session

open Workbench (Run Step)

/-! ## Receiving everything -/

theorem receiveAll_of_nil {s : Session} (h : s.replies = []) : s.receiveAll = ([], s) := by
  rw [receiveAll, h, takeAll, ← h]

theorem receiveAll_of_cons {s : Session} {reply : CheckReply} {rest : List CheckReply}
    (h : s.replies = reply :: rest) :
    s.receiveAll = (s.receive.1 ++ s.receive.2.receiveAll.1, s.receive.2.receiveAll.2) := by
  rw [receiveAll, h, receive_of_cons h]
  rfl

/-- Nothing is on its way. -/
def IsQuiet (s : Session) : Prop := s.inFlight = none ∧ s.replies = []

theorem takeAll_snd (replies : List CheckReply) (s : Session) :
    (takeAll replies s).2 = { s with view := (takeAll replies s).2.view } := by
  induction replies generalizing s with
  | nil => rfl
  | cons reply rest ih =>
      rw [takeAll]
      simp only []
      rw [ih]
      rfl

theorem isQuiet_receiveAll {s : Session} (h : s.inFlight = none) : IsQuiet s.receiveAll.2 := by
  rw [receiveAll, takeAll_snd]
  exact ⟨h, rfl⟩

theorem inFlight_answerIn (s : Session) (w : World φ) : (s.answerIn w).1.inFlight = none := by
  unfold answerIn
  split
  · assumption
  · next h => rw [answer_of_some h]

theorem isQuiet_settleIn (s : Session) (w : World φ) : IsQuiet (s.settleIn w).session :=
  isQuiet_receiveAll (inFlight_answerIn s w)

variable [FileSystem φ]

/-! ## Stretches -/

/-- In a world a session comes to this progress by a run of these commands, whatever was called off
before. -/
def Reaches (s : Session) (w : World φ) (commands : List Command) (p : Progress φ) : Prop :=
  ∀ calledOff, ∃ history calledOff',
    Run ⟨⟨s, calledOff⟩, w.files⟩ history ⟨⟨p.session, calledOff'⟩, p.world.files⟩ ∧
      Workbench.commands history = commands ∧ Workbench.printed history = p.lines

section Reaches

variable {s : Session} {w : World φ} {commands more : List Command} {p q : Progress φ}

theorem Reaches.refl (s : Session) (w : World φ) : Reaches s w [] ⟨[], s, w⟩ :=
  fun calledOff => ⟨[], calledOff, .nil, rfl, rfl⟩

theorem Reaches.trans (h : Reaches s w commands p) (hmore : Reaches p.session p.world more q) :
    Reaches s w (commands ++ more) { q with lines := p.lines ++ q.lines } := by
  intro calledOff
  obtain ⟨history, middle, hrun, rfl, hlines⟩ := h calledOff
  obtain ⟨history', last, hrun', rfl, hlines'⟩ := hmore middle
  refine ⟨history ++ history', last, hrun.trans hrun', Workbench.commands_append _ _, ?_⟩
  rw [Workbench.printed_append, hlines, hlines']

theorem reaches_of_check {t : Session} {e : SessionEvent} (he : e.command? = none)
    (h : ∀ calledOff, LiveSession.Step ⟨s, calledOff⟩ e ⟨t, calledOff⟩) {after : World φ}
    (hfiles : after.files = w.files) : Reaches s w [] ⟨e.lines, t, after⟩ := by
  intro calledOff
  have hstep : Step ⟨⟨s, calledOff⟩, w.files⟩ (.checked e) ⟨⟨t, calledOff⟩, after.files⟩ := by
    rw [hfiles]
    exact .check w.files (h calledOff) he
  refine ⟨_, calledOff, hstep.toRun, ?_, List.append_nil _⟩
  simp [Workbench.commands, Workbench.inSession, SessionEvent.commands, Workbench.Event.inSession,
    he]

end Reaches

theorem reaches_carryOut {s t : Session} {w after : World φ} {c : Command} {lines : List String}
    (h : w.carryOut (s.execute c) = some ((lines, t), after)) :
    Reaches s w [c] ⟨lines, t, after⟩ := fun calledOff =>
  ⟨_, _, (@Step.run φ _ ⟨⟨s, calledOff⟩, w.files⟩ w after c lines t rfl h).toRun, rfl,
    List.append_nil _⟩

theorem reaches_answerIn (s : Session) (w : World φ) :
    Reaches s w [] ⟨[], (s.answerIn w).1, (s.answerIn w).2⟩ := by
  unfold answerIn
  split
  · exact .refl s w
  · next h => exact reaches_of_check (e := .finished _) rfl (fun _ => .finish h _) rfl

theorem reaches_receiveAll {s : Session} {replies : List CheckReply} (h : s.replies = replies)
    (w : World φ) : Reaches s w [] ⟨s.receiveAll.1, s.receiveAll.2, w⟩ := by
  induction replies generalizing s with
  | nil =>
      rw [receiveAll_of_nil h]
      exact .refl s w
  | cons reply rest ih =>
      have hrest : s.receive.2.replies = rest := by
        rw [receive_of_cons h]
        rfl
      have hreceive : Reaches s w [] ⟨s.receive.1, s.receive.2, w⟩ :=
        reaches_of_check (e := .received reply s.receive.1) rfl
          (fun calledOff => @LiveSession.Step.receive ⟨s, calledOff⟩ _ _ h) rfl
      rw [receiveAll_of_cons h]
      exact hreceive.trans (ih hrest)

theorem reaches_settleIn (s : Session) (w : World φ) : Reaches s w [] (s.settleIn w) :=
  (reaches_answerIn s w).trans (reaches_receiveAll rfl _)

theorem reaches_executeIn {s : Session} {w : World φ} {c : Command} {p : Progress φ}
    (h : s.executeIn w c = some p) : Reaches s w [c] p := by
  unfold executeIn at h
  split at h
  · cases h
  · next lines t after hrun =>
      have hreaches := reaches_carryOut hrun
      split at h
      · cases h
        have hanswered := hreaches.trans (reaches_answerIn t after)
        simp only [List.append_nil] at hanswered
        exact hanswered
      · cases h
        exact hreaches

theorem executeIn_eq_none_iff (s : Session) (w : World φ) (c : Command) :
    s.executeIn w c = none ↔ c.breaksOff = true := by
  rw [← w.carryOut_eq_none_iff s c]
  unfold executeIn
  cases w.carryOut (s.execute c) with
  | none => exact iff_of_true rfl rfl
  | some result =>
      obtain ⟨⟨lines, t⟩, after⟩ := result
      simp only []
      split <;> exact iff_of_false (Option.some_ne_none _) (Option.some_ne_none _)

/-- What came of an input is a run of these commands, and leaves nothing on its way if the input was
finished. -/
structure Concludes (s : Session) (w : World φ) (commands : List Command)
    (r : Progress φ × End) : Prop where
  reaches : Reaches s w commands r.1
  quiet : r.2 = .finished → IsQuiet r.1.session

theorem concludes_settleIn (s : Session) (w : World φ) :
    Concludes s w [] (s.settleIn w, .finished) :=
  ⟨reaches_settleIn s w, fun _ => isQuiet_settleIn s w⟩

/-! ## Line after line -/

theorem concludes_or_reaches_runCommand {s : Session} {w : World φ} {p : Progress φ}
    (h : Reaches s w [] p) (c : Command) :
    (∃ q ending, runCommand p c = (q, some ending) ∧ c.breaksOff = true ∧
      Concludes s w [] (q, ending)) ∨
    ∃ q, runCommand p c = (q, none) ∧ c.breaksOff = false ∧ Reaches s w [c] q := by
  rw [runCommand]
  cases hrun : p.session.executeIn p.world c with
  | none =>
      exact .inl ⟨_, _, rfl, (executeIn_eq_none_iff _ _ c).1 hrun, h,
        fun hend => End.noConfusion hend⟩
  | some q =>
      refine .inr ⟨_, rfl, Bool.eq_false_iff.2 fun hbreaks => ?_, h.trans (reaches_executeIn hrun)⟩
      cases hrun.symm.trans ((executeIn_eq_none_iff _ _ c).2 hbreaks)

/-- A line ends the input, or its command is run and the input goes on. -/
theorem concludes_or_reaches_runLine (isTyped : Bool) (line : List UInt8) (s : Session)
    (w : World φ) :
    (∃ p ending, runLine isTyped line s w = (p, some ending) ∧
        Command.ofByteLine? line = none ∧ Concludes s w [] (p, ending)) ∨
      ∃ p c, runLine isTyped line s w = (p, none) ∧
        Command.ofByteLine? line = some c ∧ Reaches s w [c] p := by
  unfold runLine Command.ofByteLine?
  have hbefore : Reaches s w [] (if isTyped then s.settleIn w else ⟨[], s, w⟩ : Progress φ) := by
    split
    · exact reaches_settleIn s w
    · exact .refl s w
  generalize (if isTyped then s.settleIn w else ⟨[], s, w⟩ : Progress φ) = p at hbefore
  cases Text.decode line with
  | error fault => exact .inl ⟨_, _, rfl, rfl, hbefore, fun hend => End.noConfusion hend⟩
  | ok text =>
      simp only []
      generalize Command.ofLine text = c
      have hgo := concludes_or_reaches_runCommand hbefore c
      cases c with
      | quit =>
          have hsettled : Reaches s w [] (p.andThen settleIn) :=
            hbefore.trans (reaches_settleIn p.session p.world)
          exact .inl ⟨_, _, rfl, rfl, hsettled, fun _ => isQuiet_settleIn p.session p.world⟩
      | _ =>
          obtain ⟨q, ending, hrun, hbreaks, hends⟩ | ⟨q, hrun, hgoes, hreaches⟩ := hgo
          · exact .inl ⟨q, ending, hrun, if_pos hbreaks, hends⟩
          · exact .inr ⟨q, _, hrun, if_neg (Bool.eq_false_iff.1 hgoes), hreaches⟩

section Lines

variable {isTyped : Bool} {line : List UInt8} {s : Session} {w : World φ} {p q : Progress φ}
  {ending : End} {more : List Command}

theorem concludes_of_last (h : runLine isTyped line s w = (p, some ending)) :
    Command.ofByteLine? line = none ∧ Concludes s w [] (p, ending) := by
  obtain ⟨p', ending', hrun, hnone, hends⟩ | ⟨p', c, hrun, -⟩ :=
    concludes_or_reaches_runLine isTyped line s w
  · cases hrun.symm.trans h
    exact ⟨hnone, hends⟩
  · cases hrun.symm.trans h

theorem reaches_of_next (h : runLine isTyped line s w = (p, none)) :
    ∃ c, Command.ofByteLine? line = some c ∧ Reaches s w [c] p := by
  obtain ⟨p', ending', hrun, -⟩ | ⟨p', c, hrun, hc, hreaches⟩ :=
    concludes_or_reaches_runLine isTyped line s w
  · cases hrun.symm.trans h
  · cases hrun.symm.trans h
    exact ⟨c, hc, hreaches⟩

theorem Concludes.cons {c : Command} (h : Reaches s w [c] p)
    (hmore : Concludes p.session p.world more (q, ending)) :
    Concludes s w (c :: more) ({ q with lines := p.lines ++ q.lines }, ending) :=
  ⟨h.trans hmore.reaches, hmore.quiet⟩

end Lines

theorem concludes_runLines (isTyped : Bool) (input : List (List UInt8)) (s : Session)
    (w : World φ) : Concludes s w (Command.ofByteLines input) (runLines isTyped input s w) := by
  induction input generalizing s w with
  | nil => exact concludes_settleIn s w
  | cons line rest ih =>
      rw [runLines]
      split
      · next hline =>
          obtain ⟨hnone, hends⟩ := concludes_of_last hline
          rw [Command.ofByteLines, hnone]
          exact hends
      · next p hline =>
          obtain ⟨c, hc, hreaches⟩ := reaches_of_next hline
          rw [Command.ofByteLines, hc]
          exact .cons hreaches (ih p.session p.world)

end Session

/-! ## Scripts -/

variable [FileSystem φ]

namespace Desk

/-- The commands of a script from a place in its file on. -/
def script (handle : Handle φ) (offset : Nat) (pending : List UInt8) (d : Desk φ) :
    List Command :=
  match _hline : Text.firstByteLine? pending with
  | some (line, rest) =>
    match Command.ofByteLine? line with
    | none => []
    | some c => c :: script handle offset rest (d.run c)
  | none =>
    match _hpiece : readPiece d.files handle offset with
    | .error _ => []
    | .ok (b :: bytes) =>
      script handle (offset + (b :: bytes).length) (pending ++ b :: bytes) d
    | .ok [] =>
      match pending with
      | [] => []
      | b :: bytes =>
        match Command.ofByteLine? (b :: bytes) with
        | none => []
        | some c => c :: script handle offset [] (d.run c)
termination_by (offsetLimit - offset, pending.length)
decreasing_by
  · exact Prod.Lex.right _ (Text.length_of_firstLine? _hline)
  · have := lt_offsetLimit_of_readPiece _hpiece
    exact Prod.Lex.left _ _ (by simp only [List.length_cons]; omega)
  · exact Prod.Lex.right _ (Nat.zero_lt_succ _)

section Script

variable {handle : Handle φ} {offset : Nat} {pending line rest : List UInt8} {d : Desk φ}
  {b : UInt8} {bytes : List UInt8}

theorem script_of_line (h : Text.firstByteLine? pending = some (line, rest)) :
    script handle offset pending d =
      match Command.ofByteLine? line with
      | none => []
      | some c => c :: script handle offset rest (d.run c) := by
  rw [script]
  split
  · next heq =>
      rw [h] at heq
      cases heq
      rfl
  · next heq => rw [h] at heq; cases heq

theorem script_of_fault {fault : FileFault} (h : Text.firstByteLine? pending = none)
    (hpiece : readPiece d.files handle offset = .error fault) :
    script handle offset pending d = [] := by
  rw [script]
  split
  · next heq => rw [h] at heq; cases heq
  · split
    · rfl
    · next heq => rw [hpiece] at heq; cases heq
    · next heq => rw [hpiece] at heq; cases heq

theorem script_of_piece (h : Text.firstByteLine? pending = none)
    (hpiece : readPiece d.files handle offset = .ok (b :: bytes)) :
    script handle offset pending d =
      script handle (offset + (b :: bytes).length) (pending ++ b :: bytes) d := by
  rw [script]
  split
  · next heq => rw [h] at heq; cases heq
  · split
    · next heq => rw [hpiece] at heq; cases heq
    · next heq =>
        rw [hpiece] at heq
        cases heq
        rfl
    · next heq => rw [hpiece] at heq; cases heq

theorem script_of_end (hpiece : readPiece d.files handle offset = .ok []) :
    script handle offset [] d = [] := by
  rw [script]
  split
  · next heq => cases heq
  · split
    · rfl
    · next heq => rw [hpiece] at heq; cases heq
    · rfl

theorem script_of_last_line (h : Text.firstByteLine? (b :: bytes) = none)
    (hpiece : readPiece d.files handle offset = .ok []) :
    script handle offset (b :: bytes) d =
      match Command.ofByteLine? (b :: bytes) with
      | none => []
      | some c => c :: script handle offset [] (d.run c) := by
  rw [script]
  split
  · next heq => rw [h] at heq; cases heq
  · split
    · next heq => rw [hpiece] at heq; cases heq
    · next heq => rw [hpiece] at heq; cases heq
    · rfl

end Script

end Desk

namespace Session

/-- The grammar and the files are what the commands make of them. -/
theorem Reaches.desk {s : Session} {w : World φ} {commands : List Command} {p : Progress φ}
    (h : Reaches s w commands p) :
    (⟨p.session.grammar, p.world.files⟩ : Desk φ) =
      Desk.runAll ⟨s.grammar, w.files⟩ commands := by
  obtain ⟨history, calledOff, hrun, rfl, -⟩ := h []
  exact hrun.desk

theorem concludes_runScriptFrom (handle : Handle φ) (offset : Nat) (pending : List UInt8)
    (s : Session) (w : World φ) :
    Concludes s w (Desk.script handle offset pending ⟨s.grammar, w.files⟩)
      (runScriptFrom handle offset pending s w) := by
  fun_induction runScriptFrom handle offset pending s w with
  | case1 _ _ _ _ _ _ hfirst _ _ hline =>
      obtain ⟨hnone, hends⟩ := concludes_of_last hline
      rw [Desk.script_of_line hfirst, hnone]
      exact hends
  | case2 _ _ _ _ _ _ hfirst p hline _ _ hrest ih =>
      obtain ⟨c, hc, hreaches⟩ := reaches_of_next hline
      -- The line may have changed the file of the script; the rest is read as it is after it.
      have hdesk : (⟨p.session.grammar, p.world.files⟩ : Desk φ) = _ := hreaches.desk
      rw [hrest, hdesk] at ih
      rw [Desk.script_of_line hfirst, hc]
      exact .cons hreaches ih
  | case3 _ _ s w hfirst _ hpiece =>
      rw [Desk.script_of_fault hfirst hpiece]
      exact ⟨.refl s w, fun hend => End.noConfusion hend⟩
  | case4 _ _ _ _ hfirst _ _ hpiece ih =>
      rw [Desk.script_of_piece hfirst hpiece]
      exact ih
  | case5 _ s w hpiece =>
      rw [Desk.script_of_end hpiece]
      exact concludes_settleIn s w
  | case6 _ _ _ hpiece _ _ hfirst _ _ hline =>
      obtain ⟨hnone, hends⟩ := concludes_of_last hline
      rw [Desk.script_of_last_line hfirst hpiece, hnone]
      exact hends
  | case7 _ _ _ hpiece _ _ hfirst p hline _ _ hrest ih =>
      obtain ⟨c, hc, hreaches⟩ := reaches_of_next hline
      have hdesk : (⟨p.session.grammar, p.world.files⟩ : Desk φ) = _ := hreaches.desk
      rw [hrest, hdesk] at ih
      rw [Desk.script_of_last_line hfirst hpiece, hc]
      exact .cons hreaches ih

end Session

end LinearGrammar
