import LinearGrammar.Proofs.LastQuery
import LinearGrammar.Proofs.RecordFields
import LinearGrammar.Service.Client

/-!
# What a verdict tells of the response

Between the response and the verdict lie the client, which looks at the status and reads the body, the
answer, in which what the body leaves out is empty, and the derivation, which exists only if there are
as many rules as forms. Each of them may turn a failure into something else if it is wrong. So the
verdicts are told apart here by the response alone: `Tells` has one equivalence for every verdict, and
since a view has exactly one verdict, the five conditions exclude each other and one of them holds.

Nothing has to be shown twice for that. The client either gives an answer or fails, and for each way to
fail there is one kind of response; an answer either gives a derivation or is a failure of its body. The
equivalences are these two put together. Only the verdict of a word that is no member needs more,
because it speaks of what the body leaves out; there the draft that the answer was read from has to be
looked at.
-/

namespace LinearGrammar

open Json (Document Reader readItems readList readString)

/-- A success with a body that is one document and reads as an answer. -/
structure ServiceResponse.Says (r : ServiceResponse) (d : Document) (a : CheckResponse) : Prop where
  success : 200 ≤ r.status ∧ r.status < 300
  document : Document.ofTokens (Json.byteTokens r.body) = (d, true)
  read : CheckResponse.read d = .ok a

/-- The document has no such field, or an empty array in it. -/
def CheckResponse.LeavesOut (d : Document) (name : String) : Prop :=
  shape.said? name d = none ∨ shape.said? name d = some (.arr [])

/-- What each verdict on a word says about the response to its check. -/
structure Verdict.Tells (verdict : Verdict) (response : Option ServiceResponse) : Prop where
  settled : verdict ≠ .idle ∧ ∀ seq, verdict ≠ .pending seq
  network_iff : (∃ detail, verdict = .failed (.network detail)) ↔ response = none
  status_iff : ∀ code, verdict = .failed (.status code) ↔
    ∃ r, response = some r ∧ r.status = code ∧ ¬ (200 ≤ code ∧ code < 300)
  body_iff : (∃ detail, verdict = .failed (.body detail)) ↔
    ∃ r, response = some r ∧ (200 ≤ r.status ∧ r.status < 300) ∧
      ((∀ d a, ¬ r.Says d a) ∨
        ∃ d a, r.Says d a ∧ a.derivationSteps.length ≠ a.derivativeProducts.length)
  nonMember_iff : verdict = .nonMember ↔
    ∃ r d a, response = some r ∧ r.Says d a ∧
      CheckResponse.LeavesOut d "derivationSteps" ∧ CheckResponse.LeavesOut d "derivativeProducts"
  member_iff : ∀ derivation, verdict = .member derivation ↔
    ∃ r d a n, response = some r ∧ r.Says d a ∧ 1 ≤ n ∧
      a.derivationSteps.length = n ∧ a.derivativeProducts.length = n ∧
      derivation.root = a.axiomaticSymbol ∧
      derivation.steps.map DerivationStep.rule = a.derivativeProducts ∧
      derivation.steps.map DerivationStep.form = a.derivationSteps

/-! ## What is left out -/

theorem Json.readList_eq_nil_iff {α : Type} {read : Reader α} {d : Document} :
    readList read d = .ok [] ↔ d = .arr [] := by
  constructor
  · intro h
    cases d with
    | arr items =>
        rw [readList] at h
        cases items with
        | nil => rfl
        | cons item rest =>
            rw [readItems] at h
            split at h
            · cases h
            · split at h <;> cases h
    | num value => cases value <;> cases h
    | str text => cases text <;> cases h
    | null | bool b | obj members | broken => cases h
  · rintro rfl
    rfl

theorem Json.getD_nil_iff {α : Type} {read : Reader α} {said : Option Document}
    {got : Option (List α)} (h : said.mapM (readList read) = .ok got) :
    got.getD [] = [] ↔ said = none ∨ said = some (.arr []) := by
  cases said with
  | none =>
      cases h
      simp
  | some d =>
      obtain ⟨items, hread, rfl⟩ := exists_of_map_eq_ok h
      rw [Option.getD_some]
      constructor
      · rintro rfl
        rw [readList_eq_nil_iff.1 hread]
        exact .inr rfl
      · rintro (hnone | hempty)
        · cases hnone
        · cases hempty
          cases hread
          rfl

namespace CheckResponse

variable {d : Document} {a : CheckResponse}

theorem hasField_derivationSteps :
    shape.HasField (shape.fields.take 1) (shape.fields.drop 2) "derivationSteps" (·.derivationSteps)
      (fun draft l => { draft with derivationSteps := l }) (readList readString) where
  fields := rfl
  other_name := by simp [shape, Json.Field.of]
  other_spares := by
    refine List.forall_mem_cons.2 ⟨?_, List.forall_mem_singleton.2 ?_⟩
    · exact Json.Field.spares_of fun _ _ => rfl
    · exact Json.Field.spares_of fun _ _ => rfl
  get_set _ _ := rfl
  get_blank := rfl

theorem hasField_derivativeProducts :
    shape.HasField (shape.fields.take 2) [] "derivativeProducts" (·.derivativeProducts)
      (fun draft l => { draft with derivativeProducts := l }) (readList WireRule.read) where
  fields := rfl
  other_name := by simp [shape, Json.Field.of]
  other_spares := by
    refine List.forall_mem_cons.2 ⟨?_, List.forall_mem_singleton.2 ?_⟩
    · exact Json.Field.spares_of fun _ _ => rfl
    · exact Json.Field.spares_of fun _ _ => rfl
  get_set _ _ := rfl
  get_blank := rfl

theorem derivationSteps_eq_nil_iff (h : read d = .ok a) :
    a.derivationSteps = [] ↔ LeavesOut d "derivationSteps" := by
  obtain ⟨draft, hbuild, hsaid⟩ := hasField_derivationSteps.exists_draft h
  cases hbuild
  exact Json.getD_nil_iff hsaid

theorem derivativeProducts_eq_nil_iff (h : read d = .ok a) :
    a.derivativeProducts = [] ↔ LeavesOut d "derivativeProducts" := by
  obtain ⟨draft, hbuild, hsaid⟩ := hasField_derivativeProducts.exists_draft h
  cases hbuild
  exact Json.getD_nil_iff hsaid

end CheckResponse

/-! ## The client -/

namespace ServiceResponse

variable {r : ServiceResponse} {d d' : Document} {a a' : CheckResponse}

theorem isSuccess_iff : r.isSuccess = true ↔ 200 ≤ r.status ∧ r.status < 300 := by
  simp [isSuccess]

theorem Says.unique (h : r.Says d a) (h' : r.Says d' a') : a = a' := by
  have hd : d = d' := congrArg Prod.fst (h.document.symm.trans h'.document)
  subst hd
  exact Except.ok.inj (h.read.symm.trans h'.read)

theorem readBytes_eq_ok_iff (hsuccess : 200 ≤ r.status ∧ r.status < 300) :
    Json.readBytes CheckResponse.read r.body = .ok a ↔ ∃ d, r.Says d a := by
  rw [Json.readBytes, Json.readTokens]
  constructor
  · intro h
    cases hdocument : Document.ofTokens (Json.byteTokens r.body) with
    | mk d isWhole =>
        simp only [hdocument] at h
        split at h
        · cases h
        · next b hread =>
            split at h
            · next hwhole =>
                cases h
                exact ⟨d, hsuccess, hwhole ▸ hdocument, hread⟩
            · cases h
  · rintro ⟨d, h⟩
    rw [h.document]
    simp only [h.read, if_true]

end ServiceResponse

namespace ServiceClient

/-- What the client makes of a response. -/
theorem receiveCheck_cases (c : ServiceClient) (response : Option ServiceResponse) :
    (response = none ∧ c.receiveCheck response = .error (unreachable (c.url .check))) ∨
    (∃ r, response = some r ∧ ¬ (200 ≤ r.status ∧ r.status < 300) ∧
      c.receiveCheck response = .error (.status r.status)) ∨
    (∃ r, response = some r ∧ (200 ≤ r.status ∧ r.status < 300) ∧ (∀ d a, ¬ r.Says d a) ∧
      c.receiveCheck response = .error unreadable) ∨
    ∃ r d a, response = some r ∧ r.Says d a ∧ c.receiveCheck response = .ok a := by
  cases response with
  | none => exact .inl ⟨rfl, rfl⟩
  | some r =>
      rw [receiveCheck, receive]
      by_cases hsuccess : 200 ≤ r.status ∧ r.status < 300
      · rw [if_pos (ServiceResponse.isSuccess_iff.2 hsuccess), readBody]
        cases hread : Json.readBytes CheckResponse.read r.body with
        | error e =>
            refine .inr (.inr (.inl ⟨r, rfl, hsuccess, ?_, rfl⟩))
            intro d a hanswer
            have hok := (ServiceResponse.readBytes_eq_ok_iff hsuccess).2 ⟨d, hanswer⟩
            rw [hread] at hok
            cases hok
        | ok a =>
            obtain ⟨d, hanswer⟩ := (ServiceResponse.readBytes_eq_ok_iff hsuccess).1 hread
            exact .inr (.inr (.inr ⟨r, d, a, rfl, hanswer, rfl⟩))
      · rw [if_neg (mt ServiceResponse.isSuccess_iff.1 hsuccess)]
        exact .inr (.inl ⟨r, rfl, hsuccess, rfl⟩)

variable {c : ServiceClient} {response : Option ServiceResponse}

theorem receiveCheck_network_iff :
    (∃ detail, c.receiveCheck response = .error (.network detail)) ↔ response = none := by
  rcases c.receiveCheck_cases response with ⟨rfl, heq⟩ | ⟨r, rfl, -, heq⟩ |
    ⟨r, rfl, -, -, heq⟩ | ⟨r, d, a, rfl, -, heq⟩
  · simp [heq, unreachable]
  · simp [heq]
  · simp [heq, unreadable]
  · simp [heq]

theorem receiveCheck_status_iff {code : Nat} :
    c.receiveCheck response = .error (.status code) ↔
      ∃ r, response = some r ∧ r.status = code ∧ ¬ (200 ≤ code ∧ code < 300) := by
  rcases c.receiveCheck_cases response with ⟨rfl, heq⟩ | ⟨r, rfl, hfails, heq⟩ |
    ⟨r, rfl, hsuccess, -, heq⟩ | ⟨r, d, a, rfl, hanswer, heq⟩
  · simp [heq, unreachable]
  · simp only [heq, Option.some.injEq, exists_eq_left']
    constructor
    · rintro ⟨⟩
      exact ⟨rfl, hfails⟩
    · rintro ⟨rfl, -⟩
      rfl
  · simp only [heq, Option.some.injEq, exists_eq_left']
    refine iff_of_false nofun ?_
    rintro ⟨rfl, hfails⟩
    exact hfails hsuccess
  · simp only [heq, Option.some.injEq, exists_eq_left']
    refine iff_of_false nofun ?_
    rintro ⟨rfl, hfails⟩
    exact hfails hanswer.success

theorem receiveCheck_body_iff :
    (∃ detail, c.receiveCheck response = .error (.body detail)) ↔
      ∃ r, response = some r ∧ (200 ≤ r.status ∧ r.status < 300) ∧ ∀ d a, ¬ r.Says d a := by
  rcases c.receiveCheck_cases response with ⟨rfl, heq⟩ | ⟨r, rfl, hfails, heq⟩ |
    ⟨r, rfl, hsuccess, hnone, heq⟩ | ⟨r, d, a, rfl, hanswer, heq⟩
  · simp [heq, unreachable]
  · simp only [heq, Option.some.injEq, exists_eq_left']
    exact iff_of_false nofun fun h => hfails h.1
  · simp only [heq, Option.some.injEq, exists_eq_left']
    exact iff_of_true ⟨_, rfl⟩ ⟨hsuccess, hnone⟩
  · simp only [heq, Option.some.injEq, exists_eq_left']
    exact iff_of_false nofun fun h => h.2 d a hanswer

theorem receiveCheck_ok_iff {a : CheckResponse} :
    c.receiveCheck response = .ok a ↔ ∃ r d, response = some r ∧ r.Says d a := by
  rcases c.receiveCheck_cases response with ⟨rfl, heq⟩ | ⟨r, rfl, hfails, heq⟩ |
    ⟨r, rfl, -, hnone, heq⟩ | ⟨r, d, b, rfl, hanswer, heq⟩
  · simp [heq]
  · simp only [heq, exists_and_left, Option.some.injEq, exists_eq_left']
    exact iff_of_false nofun fun ⟨d, h⟩ => hfails h.success
  · simp only [heq, exists_and_left, Option.some.injEq, exists_eq_left']
    exact iff_of_false nofun fun ⟨d, h⟩ => hnone d a h
  · simp only [heq, exists_and_left, Option.some.injEq, exists_eq_left', Except.ok.injEq]
    constructor
    · rintro rfl
      exact ⟨d, hanswer⟩
    · rintro ⟨d', hanswer'⟩
      exact hanswer.unique hanswer'

end ServiceClient

/-! ## The verdict -/

namespace Derivation

variable {a : CheckResponse} {t : Derivation}

theorem ofResponse_eq_ok_iff : ofResponse a = .ok t ↔ t.root = a.axiomaticSymbol ∧
    t.steps.map DerivationStep.rule = a.derivativeProducts ∧
    t.steps.map DerivationStep.form = a.derivationSteps := by
  rw [ofResponse]
  constructor
  · intro h
    split at h
    · next hlength =>
        cases h
        refine ⟨rfl, ?_, ?_⟩
        · have hzip := List.map_fst_zip hlength.ge
          simpa [List.zip, List.map_zipWith] using hzip
        · have hzip := List.map_snd_zip hlength.le
          simpa [List.zip, List.map_zipWith] using hzip
    · cases h
  · rintro ⟨hroot, hrules, hforms⟩
    have hsteps : List.zipWith DerivationStep.mk (t.steps.map DerivationStep.rule)
        (t.steps.map DerivationStep.form) = t.steps := by
      rw [List.zipWith_map, List.zipWith_self]
      exact List.map_id t.steps
    rw [← hroot, ← hrules, ← hforms, if_pos (by simp), hsteps]

theorem ofResponse_error_cases {e : ServiceFailure} (h : ofResponse a = .error e) :
    ∃ detail, e = .body detail := by
  rw [ofResponse] at h
  split at h
  · cases h
  · cases h
    exact ⟨_, rfl⟩

theorem ofResponse_body_iff : (∃ detail, ofResponse a = .error (.body detail)) ↔
    a.derivationSteps.length ≠ a.derivativeProducts.length := by
  rw [ofResponse]
  split
  · next hlength => simp [hlength]
  · next hlength => simp [hlength]

theorem exists_ofResponse_nil_iff : (∃ t, ofResponse a = .ok t ∧ t.steps = []) ↔
    a.derivationSteps = [] ∧ a.derivativeProducts = [] := by
  constructor
  · rintro ⟨t, ht, hnil⟩
    obtain ⟨-, hrules, hforms⟩ := ofResponse_eq_ok_iff.1 ht
    rw [← hrules, ← hforms, hnil]
    exact ⟨rfl, rfl⟩
  · rintro ⟨hsteps, hproducts⟩
    refine ⟨⟨a.axiomaticSymbol, []⟩, ofResponse_eq_ok_iff.2 ⟨rfl, ?_, ?_⟩, rfl⟩
    · rw [hproducts, List.map_nil]
    · rw [hsteps, List.map_nil]

end Derivation

namespace Verdict

variable {outcome : Outcome CheckResponse}

theorem ofOutcome_failed_iff {e : ServiceFailure} : ofOutcome outcome = .failed e ↔
    outcome = .error e ∨ ∃ a, outcome = .ok a ∧ Derivation.ofResponse a = .error e := by
  cases outcome with
  | error e' => simp [ofOutcome, Except.bind]
  | ok a =>
      cases hresponse : Derivation.ofResponse a with
      | error e' => simp [ofOutcome, Except.bind, hresponse]
      | ok t => by_cases hnil : t.steps = [] <;> simp [ofOutcome, Except.bind, hresponse, hnil]

theorem ofOutcome_nonMember_iff : ofOutcome outcome = .nonMember ↔
    ∃ a, outcome = .ok a ∧ ∃ t, Derivation.ofResponse a = .ok t ∧ t.steps = [] := by
  cases outcome with
  | error e => simp [ofOutcome, Except.bind]
  | ok a =>
      cases hresponse : Derivation.ofResponse a with
      | error e => simp [ofOutcome, Except.bind, hresponse]
      | ok t => by_cases hnil : t.steps = [] <;> simp [ofOutcome, Except.bind, hresponse, hnil]

theorem ofOutcome_member_iff {t : Derivation} : ofOutcome outcome = .member t ↔
    ∃ a, outcome = .ok a ∧ Derivation.ofResponse a = .ok t ∧ t.steps ≠ [] := by
  cases outcome with
  | error e => simp [ofOutcome, Except.bind]
  | ok a =>
      cases hresponse : Derivation.ofResponse a with
      | error e => simp [ofOutcome, Except.bind, hresponse]
      | ok u =>
          have hsame : u = t ∧ u.steps ≠ [] ↔ u = t ∧ t.steps ≠ [] :=
            and_congr_right fun h => by rw [h]
          by_cases hnil : u.steps = [] <;>
            simpa [ofOutcome, Except.bind, hresponse, hnil] using hsame

theorem settled_ofOutcome : ofOutcome outcome ≠ .idle ∧ ∀ seq, ofOutcome outcome ≠ .pending seq := by
  rw [ofOutcome]
  split
  · exact ⟨nofun, nofun⟩
  · split
    · exact ⟨nofun, nofun⟩
    · exact ⟨nofun, nofun⟩

end Verdict

/-- The verdict on the outcome of a check tells what the response was. -/
theorem ServiceClient.tells_receiveCheck (c : ServiceClient) (response : Option ServiceResponse) :
    (Verdict.ofOutcome (c.receiveCheck response)).Tells response where
  settled := Verdict.settled_ofOutcome
  network_iff := by
    rw [← receiveCheck_network_iff (c := c)]
    refine exists_congr fun detail => ?_
    rw [Verdict.ofOutcome_failed_iff, or_iff_left]
    rintro ⟨a, -, herror⟩
    obtain ⟨detail', he⟩ := Derivation.ofResponse_error_cases herror
    cases he
  status_iff := by
    intro code
    rw [← receiveCheck_status_iff (c := c), Verdict.ofOutcome_failed_iff, or_iff_left]
    rintro ⟨a, -, herror⟩
    obtain ⟨detail', he⟩ := Derivation.ofResponse_error_cases herror
    cases he
  body_iff := by
    simp only [Verdict.ofOutcome_failed_iff, exists_or]
    rw [receiveCheck_body_iff]
    constructor
    · rintro (⟨r, hr, hsuccess, hnone⟩ | ⟨detail, a, ha, herror⟩)
      · exact ⟨r, hr, hsuccess, .inl hnone⟩
      · obtain ⟨r, d, hr, hanswer⟩ := receiveCheck_ok_iff.1 ha
        have hlength := Derivation.ofResponse_body_iff.1 ⟨detail, herror⟩
        exact ⟨r, hr, hanswer.success, .inr ⟨d, a, hanswer, hlength⟩⟩
    · rintro ⟨r, hr, hsuccess, hnone | ⟨d, a, hanswer, hlength⟩⟩
      · exact .inl ⟨r, hr, hsuccess, hnone⟩
      · obtain ⟨detail, herror⟩ := Derivation.ofResponse_body_iff.2 hlength
        exact .inr ⟨detail, a, receiveCheck_ok_iff.2 ⟨r, d, hr, hanswer⟩, herror⟩
  nonMember_iff := by
    rw [Verdict.ofOutcome_nonMember_iff]
    simp only [receiveCheck_ok_iff, Derivation.exists_ofResponse_nil_iff]
    constructor
    · rintro ⟨a, ⟨r, d, hr, hanswer⟩, hsteps, hproducts⟩
      exact ⟨r, d, a, hr, hanswer, (CheckResponse.derivationSteps_eq_nil_iff hanswer.read).1 hsteps,
        (CheckResponse.derivativeProducts_eq_nil_iff hanswer.read).1 hproducts⟩
    · rintro ⟨r, d, a, hr, hanswer, hsteps, hproducts⟩
      exact ⟨a, ⟨r, d, hr, hanswer⟩, (CheckResponse.derivationSteps_eq_nil_iff hanswer.read).2 hsteps,
        (CheckResponse.derivativeProducts_eq_nil_iff hanswer.read).2 hproducts⟩
  member_iff := by
    intro t
    rw [Verdict.ofOutcome_member_iff]
    simp only [receiveCheck_ok_iff, Derivation.ofResponse_eq_ok_iff]
    constructor
    · rintro ⟨a, ⟨r, d, hr, hanswer⟩, ⟨hroot, hrules, hforms⟩, hne⟩
      refine ⟨r, d, a, t.steps.length, hr, hanswer, List.length_pos_iff.2 hne, ?_, ?_, hroot, hrules,
        hforms⟩
      · rw [← hforms, List.length_map]
      · rw [← hrules, List.length_map]
    · rintro ⟨r, d, a, n, hr, hanswer, hn, hlength, -, hroot, hrules, hforms⟩
      refine ⟨a, ⟨r, d, hr, hanswer⟩, ⟨hroot, hrules, hforms⟩, ?_⟩
      rw [← hforms, List.length_map] at hlength
      exact List.length_pos_iff.1 (hlength ▸ hn)

/-- A word that is accepted and not empty is under test until the outcome of its check is in, whatever
the view was before. Then it is the same word, nothing is awaited any more, and the verdict tells what
the response was. -/
theorem WordView.check_settled (v : WordView) {text : String} (hink : Text.hasBlank text = false)
    (hne : text ≠ "") :
    ∃ ticket w, v.setQuery text = .ok (some ticket, w) ∧ w.isPending = true ∧ w.query = text ∧
      ticket.word = text ∧
      ∀ (c : ServiceClient) (response : Option ServiceResponse),
        ∃ final, w.apply ticket.seq (c.receiveCheck response) = (true, final) ∧
          final.isPending = false ∧ final.query = text ∧ final.latest = w.latest ∧
          final.verdict.Tells response := by
  refine ⟨⟨v.latest + 1, text⟩, ⟨text, v.latest + 1, .pending (v.latest + 1)⟩, ?_, rfl, rfl, rfl, ?_⟩
  · rw [setQuery, if_neg (by rw [hink]; decide)]
    simp only []
    rw [if_neg fun hempty => hne (String.isEmpty_iff.1 hempty)]
  · intro c response
    refine ⟨⟨text, v.latest + 1, .ofOutcome (c.receiveCheck response)⟩, ?_, ?_, rfl, rfl, ?_⟩
    · rw [apply, if_pos]
      simp [isPending]
    · exact not_isPending_ofOutcome text (v.latest + 1) (c.receiveCheck response)
    · exact c.tells_receiveCheck response

/-- A success that leaves both lists out. -/
def ServiceResponse.rootAlone : ServiceResponse where
  status := 203
  body := "\x7b\"axiomaticSymbol\": \"S\"\x7d".toUTF8.toList

/-- A success with one step, written as the array of its fields. -/
def ServiceResponse.oneStep : ServiceResponse where
  status := 200
  body := "[\"S\", [\"ab\"], [[\"S\", \"ab\"]]]".toUTF8.toList

theorem WordView.check_settled_initial :
    ∃ ticket w, initial.setQuery "ab" = .ok (some ticket, w) ∧ ∀ c : ServiceClient,
      (∃ v, w.apply ticket.seq (c.receiveCheck (some .rootAlone)) = (true, v) ∧
        v.verdict = .nonMember) ∧
      (∃ v, w.apply ticket.seq (c.receiveCheck (some .oneStep)) = (true, v) ∧
        v.verdict = .member ⟨"S", [⟨⟨"S", "ab"⟩, "ab"⟩]⟩) ∧
      ∃ v, w.apply ticket.seq (c.receiveCheck (some { ServiceResponse.oneStep with status := 300 })) =
          (true, v) ∧ v.verdict = .failed (.status 300) := by
  have hsuccess : 200 ≤ 203 ∧ 203 < 300 := by decide
  have hsuccess' : 200 ≤ 200 ∧ 200 < 300 := by decide
  obtain ⟨d, hroot⟩ : ∃ d, ServiceResponse.rootAlone.Says d ⟨"S", [], []⟩ :=
    (ServiceResponse.readBytes_eq_ok_iff hsuccess).1 (by decide +kernel)
  obtain ⟨d', hstep⟩ : ∃ d, ServiceResponse.oneStep.Says d ⟨"S", ["ab"], [⟨"S", "ab"⟩]⟩ :=
    (ServiceResponse.readBytes_eq_ok_iff hsuccess').1 (by decide +kernel)
  have hink : Text.hasBlank "ab" = false := by decide
  obtain ⟨ticket, w, hquery, -, -, -, hsettled⟩ := check_settled initial hink (by decide)
  refine ⟨ticket, w, hquery, fun c => ⟨?_, ?_, ?_⟩⟩
  · obtain ⟨v, happly, -, -, -, htells⟩ := hsettled c (some .rootAlone)
    exact ⟨v, happly, htells.nonMember_iff.2 ⟨_, d, _, rfl, hroot,
      (CheckResponse.derivationSteps_eq_nil_iff hroot.read).1 rfl,
      (CheckResponse.derivativeProducts_eq_nil_iff hroot.read).1 rfl⟩⟩
  · obtain ⟨v, happly, -, -, -, htells⟩ := hsettled c (some .oneStep)
    exact ⟨v, happly, (htells.member_iff _).2
      ⟨_, d', _, 1, rfl, hstep, le_rfl, rfl, rfl, rfl, rfl, rfl⟩⟩
  · obtain ⟨v, happly, -, -, -, htells⟩ :=
      hsettled c (some { ServiceResponse.oneStep with status := 300 })
    exact ⟨v, happly, (htells.status_iff 300).2 ⟨_, rfl, rfl, by decide⟩⟩

end LinearGrammar
