import LinearGrammar.Proofs.Inputs
import LinearGrammar.Proofs.Ledger

/-!
# The end of a session

A session that comes to its end waits for the outstanding check and receives what is in the queue.
After that nothing is on its way, and by the ledger every word has its verdict. The ledger knows of
runs only, but whatever the program does with an input or a script is one, of the commands that stand
in it. The files and the service may be any: the run that is counted is the one without them.
-/

namespace LinearGrammar

open FileSystem (Handle)

namespace LiveSession

/-- The session goes on by a run of these commands to what came of it, and there every word has its
verdict. -/
def SettlesAs {φ : Type} (events : List SessionEvent) (x : LiveSession) (commands : List Command)
    (p : Progress φ) : Prop :=
  ∃ more y, Run x more y ∧ y.session = p.session ∧ SessionEvent.commands more = commands ∧
    SessionEvent.printed more = p.lines ∧ Settled (events ++ more) y

theorem Run.settlesAs {φ : Type} [FileSystem φ] {g : Grammar} {events : List SessionEvent}
    {x : LiveSession} {w : World φ} {commands : List Command} {p : Progress φ}
    (h : Run (opening g) events x)
    (hends : x.session.Concludes w commands (p, .finished)) : SettlesAs events x commands p := by
  obtain ⟨history, calledOff, hrun, hcommands, hlines⟩ := hends.reaches x.calledOff
  obtain ⟨hinFlight, hreplies⟩ := hends.quiet rfl
  exact ⟨Workbench.inSession history, ⟨p.session, calledOff⟩, hrun.live, rfl, hcommands, hlines,
    (h.trans hrun.live).accounted.settled hinFlight hreplies⟩

/-- No answer is lost and none is stale, in whatever order things happen. While the view waits, the
check with its number is outstanding or its one answer is in the queue, and not both. An answer that is
not the first one to the last word goes by without a line or a change. No number gets two verdicts,
and a verdict is about the last word that was accepted, and names it. When nothing is on its way, and
so after settling and at the end of an input or a script, no word waits and the last one has had its
verdict. -/
theorem every_word_answered_once {g : Grammar} {events : List SessionEvent} {x : LiveSession}
    (h : Run (opening g) events x) :
    (∀ seq, x.session.view.verdict = .pending seq →
      (x.session.inFlight = some ⟨seq, x.session.view.query⟩ ∧ x.queued seq = 0) ∨
        (x.session.inFlight = none ∧ x.queued seq = 1)) ∧
    (∀ reply rest, x.session.replies = reply :: rest →
      ¬ WordView.Awaits (SessionEvent.history events) reply.seq →
        x.session.receive = ([], { x.session with replies := rest })) ∧
    (∀ seq, SessionEvent.verdicts events seq ≤ 1) ∧
    (∀ before after reply lines, events = before ++ .received reply lines :: after →
      lines ≠ [] →
        ∃ word since,
          WordView.lastEdit? (SessionEvent.history before) = some (word, since) ∧ word ≠ "" ∧
          reply.seq = WordView.editCount (SessionEvent.history before) ∧
          lines = Session.verdictLines word reply.outcome ∧
          ∃ mark ∈ [" ∈ L(G)", " ∉ L(G)", " ?"], lines.getLast? = some (word ++ mark)) ∧
    (x.session.inFlight = none → x.session.replies = [] → Settled events x) ∧
    ∀ (φ : Type) [FileSystem φ] (w : World φ),
      SettlesAs events x [] (x.session.settleIn w) ∧
      (∀ isTyped input p, x.session.runIn w isTyped input = (p, .finished) →
        SettlesAs events x (Command.ofByteLines (Text.byteLines input)) p) ∧
      (∀ (handle : Handle φ) p, x.session.runScript w handle = (p, .finished) →
        SettlesAs events x (Desk.script handle 0 [] ⟨x.session.grammar, w.files⟩) p) := by
  have hbooks : Accounted events x := h.accounted
  refine ⟨fun seq => hbooks.of_pending, fun reply rest hreplies hstale => ?_,
    hbooks.verdicts_le_one, fun before after reply lines hevents hlines => ?_, hbooks.settled,
    fun φ _ w => ⟨?_, fun isTyped input p hp => ?_, fun handle p hp => ?_⟩⟩
  · rw [hbooks.awaits_iff] at hstale
    exact Session.receive_of_not_awaited hreplies hstale
  · obtain ⟨word, since, hlast, hne, hseq, rfl⟩ := h.verdict_names_word hevents hlines
    exact ⟨word, since, hlast, hne, hseq, rfl, Session.getLast?_verdictLines word _⟩
  · exact h.settlesAs (Session.concludes_settleIn _ w)
  · have hends := Session.concludes_runLines isTyped (Text.byteLines input) x.session w
    rw [← Session.runIn, hp] at hends
    exact h.settlesAs hends
  · have hends := Session.concludes_runScriptFrom handle 0 [] x.session w
    rw [← Session.runScript, hp] at hends
    exact h.settlesAs hends

/-- A word is replaced while its check is outstanding, and the answer slips into the queue all the
same. -/
def overtaken : List SessionEvent :=
  [.ran (.word "a") [], .ran (.word "b") [], .gone ⟨1, "a"⟩ (some (.error (.status 500))),
    .received ⟨1, .error (.status 500)⟩ [], .finished (.error (.status 404)),
    .received ⟨2, .error (.status 404)⟩ (Session.verdictLines "b" (.error (.status 404)))]

/-- The session after it. -/
def overtakenEnd : LiveSession :=
  ⟨⟨.empty, ⟨"b", 2, .failed (.status 404)⟩, none, none, []⟩, []⟩

theorem run_overtaken : Run (opening .empty) overtaken overtakenEnd := by
  have hfirst : Step (opening .empty) (.ran (.word "a") [])
      ⟨⟨.empty, ⟨"a", 1, .pending 1⟩, none, some ⟨1, "a"⟩, []⟩, []⟩ := .run (.done _)
  have hsecond : Step ⟨⟨.empty, ⟨"a", 1, .pending 1⟩, none, some ⟨1, "a"⟩, []⟩, []⟩
      (.ran (.word "b") [])
      ⟨⟨.empty, ⟨"b", 2, .pending 2⟩, none, some ⟨2, "b"⟩, []⟩, [⟨1, "a"⟩]⟩ := .run (.done _)
  have hslip : Step ⟨⟨.empty, ⟨"b", 2, .pending 2⟩, none, some ⟨2, "b"⟩, []⟩, [⟨1, "a"⟩]⟩
      (.gone ⟨1, "a"⟩ (some (.error (.status 500))))
      ⟨⟨.empty, ⟨"b", 2, .pending 2⟩, none, some ⟨2, "b"⟩, [⟨1, .error (.status 500)⟩]⟩, []⟩ :=
    @Step.slip _ [] [] ⟨1, "a"⟩ _
  have hstale : Step
      ⟨⟨.empty, ⟨"b", 2, .pending 2⟩, none, some ⟨2, "b"⟩, [⟨1, .error (.status 500)⟩]⟩, []⟩
      (.received ⟨1, .error (.status 500)⟩ [])
      ⟨⟨.empty, ⟨"b", 2, .pending 2⟩, none, some ⟨2, "b"⟩, []⟩, []⟩ := .receive rfl
  have hfinish : Step ⟨⟨.empty, ⟨"b", 2, .pending 2⟩, none, some ⟨2, "b"⟩, []⟩, []⟩
      (.finished (.error (.status 404)))
      ⟨⟨.empty, ⟨"b", 2, .pending 2⟩, none, none, [⟨2, .error (.status 404)⟩]⟩, []⟩ :=
    .finish rfl _
  have hverdict : Step
      ⟨⟨.empty, ⟨"b", 2, .pending 2⟩, none, none, [⟨2, .error (.status 404)⟩]⟩, []⟩
      (.received ⟨2, .error (.status 404)⟩ (Session.verdictLines "b" (.error (.status 404))))
      overtakenEnd := .receive rfl
  exact (((((hfirst.toRun.concat hsecond).concat hslip).concat hstale).concat hfinish).concat
    hverdict)

theorem every_word_answered_once_overtaken :
    Settled overtaken overtakenEnd ∧ SessionEvent.verdicts overtaken 1 = 0 ∧
      SessionEvent.verdicts overtaken 2 = 1 := by
  obtain ⟨-, -, -, -, hsettled, -⟩ := every_word_answered_once run_overtaken
  exact ⟨hsettled rfl rfl, rfl, rfl⟩

end LiveSession

end LinearGrammar
