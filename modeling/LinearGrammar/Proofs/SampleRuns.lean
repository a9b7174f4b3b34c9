import LinearGrammar.Proofs.Expansion

/-!
# What sampling may return

Two loops share one list of draws: the outer one goes through the words that were asked for, the inner
one tries again for a word while the depth is exhausted. All that either of them does with the draws is
to run `generate`, each time on what the run before left. So sampling is told by its runs.
`SampleRun.Tell` and `Gathers` are the two loops with the runs in place of the draws, and everything
that is said about the result is said of a list of runs, by induction on these two.

What decides between an error and a shorter list is whether any word was found before. `Gathers` shows
why an exhausted depth is returned for the first word only: a word that is given up is skipped once
there is one, and there is one from the first word on.

Room for all the words is reserved before the first run. For a huge amount that cannot be, and then
there are no runs and no result, not even an error, whatever the runs would have been.
-/

namespace LinearGrammar

/-! ## Runs take draws from the front -/

namespace Draws

variable {α : Type}

/-- The draws behind the next `n`. Zeros follow the last one, so there are always as many. -/
def skip (n : Nat) (d : Draws) : Draws := ⟨d.rest.drop n, d.used + n⟩

theorem skip_skip (m n : Nat) (d : Draws) : (d.skip m).skip n = d.skip (m + n) := by
  simp only [skip, List.drop_drop, Nat.add_assoc]

theorem exists_skip_indexBelow (k : Nat) (d : Draws) : ∃ n, (indexBelow k d).2 = d.skip n := by
  fun_induction indexBelow k d with
  | case1 used => exact ⟨1, rfl⟩
  | case2 v rest used product haccepted => exact ⟨1, rfl⟩
  | case3 v rest used product hrefused ih =>
      obtain ⟨n, hn⟩ := ih
      refine ⟨1 + n, ?_⟩
      rw [hn, ← skip_skip]
      rfl

theorem exists_skip_chooseAfter (seen : Nat) (kept : Option α) (items : List α) (d : Draws) :
    ∃ n, (chooseAfter seen kept items d).2 = d.skip n := by
  induction items generalizing seen kept d with
  | nil => exact ⟨0, rfl⟩
  | cons x rest ih =>
      obtain ⟨m, hm⟩ := exists_skip_indexBelow (seen + 1) d
      rw [chooseAfter]
      dsimp only
      rw [hm]
      obtain ⟨n, hn⟩ := ih (seen + 1) (if (indexBelow (seen + 1) d).1 = 0 then some x else kept)
        (d.skip m)
      exact ⟨m + n, hn.trans (skip_skip m n d)⟩

end Draws

/-- Trying again would not mend it. -/
def SampleError.IsFinal (e : SampleError) : Prop := ∀ depth, e ≠ .depthExhausted depth

/-- A run of `generate`: what came of it, and how many draws it took. -/
structure SampleRun where
  outcome : Except SampleError Sample
  taken : Nat

namespace SampleRun

def IsExhausted (r : SampleRun) : Prop := ∃ depth, r.outcome = .error (.depthExhausted depth)

/-- The words that were found, in order. -/
def samples (runs : List SampleRun) : List Sample := runs.filterMap (·.outcome.toOption)

/-- How many draws were taken in all. -/
def takenBy : List SampleRun → Nat
  | [] => 0
  | r :: rest => r.taken + takenBy rest

end SampleRun

namespace Grammar

open SampleRun (samples takenBy)

variable {g : Grammar} {d left : Draws}

theorem exists_skip_expand (g : Grammar) (depth budget : Nat) (form : Form) (d : Draws) :
    ∃ n, (g.expand depth budget form d).2 = d.skip n := by
  have hchosen : ∀ {symbol d r left}, Draws.choose (g.rulesFor symbol) d = (r, left) →
      ∃ n, left = d.skip n := by
    intro symbol d r left h
    obtain ⟨n, hn⟩ := Draws.exists_skip_chooseAfter 0 none (g.rulesFor symbol) d
    exact ⟨n, (congrArg Prod.snd h).symm.trans hn⟩
  fun_induction expand g depth budget form d
  case case1 | case2 => exact ⟨0, rfl⟩
  case case3 hchoose => exact hchosen hchoose
  case case4 hchoose _ _ _ hrest ih | case5 hchoose _ _ _ hrest ih =>
    obtain ⟨m, rfl⟩ := hchosen hchoose
    obtain ⟨n, hn⟩ := ih
    rw [hrest] at hn
    exact ⟨m + n, hn.trans (Draws.skip_skip m n _)⟩

theorem exists_skip_generate (g : Grammar) (d : Draws) : ∃ n, (g.generate d).2 = d.skip n := by
  fun_cases generate g d
  case case1 | case2 => exact ⟨0, rfl⟩
  case case3 symbol depth _ _ _ _ hexpand | case4 symbol depth _ _ _ _ hexpand =>
    obtain ⟨n, hn⟩ := exists_skip_expand g depth depth [symbol] d
    exact ⟨n, (congrArg Prod.snd hexpand).symm.trans hn⟩

theorem depth_of_expand_exhausted {depth depth' budget : Nat} {form : Form}
    (h : (g.expand depth budget form d).1 = .error (.depthExhausted depth')) : depth = depth' := by
  fun_induction expand g depth budget form d with
  | case1 => cases h
  | case2 => cases h; rfl
  | case3 => cases h
  | case4 => cases h
  | case5 form d before symbol after hleft budget r left hchoose next e last hrest ih =>
      apply ih
      rw [hrest]
      exact h

/-- The depth that is exhausted is that of the grammar. -/
theorem depth_of_exhausted {depth : Nat}
    (h : (g.generate d).1 = .error (.depthExhausted depth)) : g.depth = .ok depth := by
  unfold generate at h
  split at h
  · cases h
  · next e _ hdepth =>
      -- Reading the depth fails in two other ways.
      cases h
      unfold Grammar.depth at hdepth
      split at hdepth
      · cases hdepth
      · split at hdepth
        · cases hdepth
        · cases hdepth
  · next start depth' hstart hdepth =>
      split at h
      · cases h
      · next e left hexpand =>
          cases h
          rw [hdepth, depth_of_expand_exhausted (congrArg Prod.fst hexpand)]

/-! ## Runs in a row -/

/-- Runs one after the other, each on the draws that those before it left. -/
inductive Runs (g : Grammar) : Draws → List SampleRun → Prop
  | nil {d : Draws} : Runs g d []
  | cons {d : Draws} {r : SampleRun} {rest : List SampleRun}
      (hrun : g.generate d = (r.outcome, d.skip r.taken)) (hrest : Runs g (d.skip r.taken) rest) :
      Runs g d (r :: rest)

/-- A run on its own. -/
theorem exists_run {o : Except SampleError Sample} (h : g.generate d = (o, left)) :
    ∃ n, left = d.skip n ∧ g.Runs d [⟨o, n⟩] := by
  obtain ⟨n, hn⟩ := exists_skip_generate g d
  have hleft : left = d.skip n := (congrArg Prod.snd h).symm.trans hn
  exact ⟨n, hleft, .cons (hleft ▸ h) .nil⟩

theorem Runs.append {before after : List SampleRun} (hbefore : g.Runs d before)
    (hafter : g.Runs (d.skip (takenBy before)) after) : g.Runs d (before ++ after) := by
  induction hbefore with
  | nil => exact hafter
  | @cons d r rest hrun _ ih =>
      refine .cons hrun (ih ?_)
      rw [Draws.skip_skip]
      exact hafter

theorem takenBy_append (before after : List SampleRun) :
    takenBy (before ++ after) = takenBy before + takenBy after := by
  induction before with
  | nil => exact (Nat.zero_add _).symm
  | cons r rest ih => rw [List.cons_append, takenBy, ih, takenBy, Nat.add_assoc]

/-- Whatever depth is exhausted on the way is that of the grammar. -/
theorem Runs.depth_eq {runs : List SampleRun} (h : g.Runs d runs) {r : SampleRun} (hr : r ∈ runs)
    {depth : Nat} (hexhausted : r.outcome = .error (.depthExhausted depth)) :
    g.depth = .ok depth := by
  induction h with
  | nil => cases hr
  | cons hrun _ ih =>
      rcases List.mem_cons.1 hr with rfl | hr
      · exact depth_of_exhausted ((congrArg Prod.fst hrun).trans hexhausted)
      · exact ih hr

end Grammar

/-! ## The runs for a word -/

namespace SampleRun

/-- What comes of trying for a word, by its runs: all of them but the last exhaust the depth, and only
so many of these are made. -/
inductive Tell (again : Nat) : List SampleRun → Grammar.Attempt → Prop
  | found {before : List SampleRun} {last : SampleRun} {s : Sample}
      (hbefore : ∀ r ∈ before, r.IsExhausted) (hle : before.length ≤ again)
      (hlast : last.outcome = .ok s) : Tell again (before ++ [last]) (.found s)
  | givenUp {before : List SampleRun} {last : SampleRun} {depth : Nat}
      (hbefore : ∀ r ∈ before, r.IsExhausted) (hlength : before.length = again)
      (hlast : last.outcome = .error (.depthExhausted depth)) :
      Tell again (before ++ [last]) (.givenUp (.depthExhausted depth))
  | failed {before : List SampleRun} {last : SampleRun} {e : SampleError}
      (hbefore : ∀ r ∈ before, r.IsExhausted) (hle : before.length ≤ again)
      (hlast : last.outcome = .error e) (he : e.IsFinal) : Tell again (before ++ [last]) (.failed e)

variable {again : Nat} {runs : List SampleRun} {a : Grammar.Attempt} {r : SampleRun}

theorem Tell.cons (hr : r.IsExhausted) (h : Tell again runs a) : Tell (again + 1) (r :: runs) a := by
  cases h with
  | found hbefore hle hlast =>
      exact .found (List.forall_mem_cons.2 ⟨hr, hbefore⟩) (Nat.succ_le_succ hle) hlast
  | givenUp hbefore hlength hlast =>
      exact .givenUp (List.forall_mem_cons.2 ⟨hr, hbefore⟩) (congrArg (· + 1) hlength) hlast
  | failed hbefore hle hlast he =>
      exact .failed (List.forall_mem_cons.2 ⟨hr, hbefore⟩) (Nat.succ_le_succ hle) hlast he

theorem not_isExhausted_of_ok {s : Sample} (h : r.outcome = .ok s) : ¬ r.IsExhausted := by
  rintro ⟨depth, hr⟩
  rw [h] at hr
  cases hr

theorem not_isExhausted_of_isFinal {e : SampleError} (h : r.outcome = .error e) (he : e.IsFinal) :
    ¬ r.IsExhausted := by
  rintro ⟨depth, hr⟩
  rw [h] at hr
  cases hr
  exact he depth rfl

/-- The runs that are made for one word, sixteen at most: there is another one exactly as long as the
depth is exhausted. -/
structure ForOneWord (runs : List SampleRun) : Prop where
  ne_nil : runs ≠ []
  length_le : runs.length ≤ 16
  exhausted : ∀ r ∈ runs.dropLast, r.IsExhausted
  ends : runs.length = 16 ∨ ∃ r ∈ runs.getLast?, ¬ r.IsExhausted

theorem Tell.forOneWord (h : Tell 15 runs a) : ForOneWord runs := by
  have hshape : ∀ {before : List SampleRun} {last : SampleRun}, (∀ r ∈ before, r.IsExhausted) →
      before.length ≤ 15 → (before.length = 15 ∨ ¬ last.IsExhausted) →
      ForOneWord (before ++ [last]) := by
    intro before last hbefore hle hends
    have hlength : (before ++ [last]).length = before.length + 1 := by
      rw [List.length_append, List.length_singleton]
    refine ⟨List.append_ne_nil_of_right_ne_nil _ (List.cons_ne_nil _ _), by omega, ?_, ?_⟩
    · rwa [List.dropLast_concat]
    · rw [hlength, List.getLast?_concat]
      exact hends.imp (congrArg (· + 1)) fun hlast => ⟨last, rfl, hlast⟩
  cases h with
  | found hbefore hle hlast => exact hshape hbefore hle (.inr (not_isExhausted_of_ok hlast))
  | givenUp hbefore hlength hlast => exact hshape hbefore hlength.le (.inl hlength)
  | failed hbefore hle hlast he =>
      exact hshape hbefore hle (.inr (not_isExhausted_of_isFinal hlast he))

theorem samples_append (before after : List SampleRun) :
    samples (before ++ after) = samples before ++ samples after :=
  List.filterMap_append

theorem samples_of_isExhausted (h : ∀ r ∈ runs, r.IsExhausted) : samples runs = [] := by
  refine List.filterMap_eq_nil_iff.2 fun r hr => ?_
  obtain ⟨depth, hdepth⟩ := h r hr
  rw [hdepth]
  rfl

theorem Tell.samples_found {s : Sample} (h : Tell again runs (.found s)) : samples runs = [s] := by
  cases h with
  | found hbefore hle hlast =>
      rw [samples_append, samples_of_isExhausted hbefore, samples, List.filterMap_cons, hlast]
      rfl

theorem Tell.isExhausted_of_givenUp {e : SampleError} (h : Tell again runs (.givenUp e)) :
    ∀ r ∈ runs, r.IsExhausted := by
  cases h with
  | givenUp hbefore hlength hlast =>
      exact List.forall_mem_append.2 ⟨hbefore, List.forall_mem_singleton.2 ⟨_, hlast⟩⟩

/-- Only the last run can fail for good, and then trying does. -/
theorem Tell.eq_failed {e : SampleError} (h : Tell again runs a) (hr : r ∈ runs)
    (herror : r.outcome = .error e) (he : e.IsFinal) : a = .failed e := by
  have hnot : ¬ r.IsExhausted := not_isExhausted_of_isFinal herror he
  cases h with
  | found hbefore hle hlast =>
      rcases List.mem_append.1 hr with hr | hr
      · exact absurd (hbefore r hr) hnot
      · rw [List.mem_singleton.1 hr, hlast] at herror
        cases herror
  | givenUp hbefore hlength hlast =>
      rcases List.mem_append.1 hr with hr | hr
      · exact absurd (hbefore r hr) hnot
      · exact absurd ⟨_, List.mem_singleton.1 hr ▸ hlast⟩ hnot
  | failed hbefore hle hlast he' =>
      rcases List.mem_append.1 hr with hr | hr
      · exact absurd (hbefore r hr) hnot
      · rw [List.mem_singleton.1 hr, hlast] at herror
        cases herror
        rfl

theorem Tell.exists_of_failed {e : SampleError} (h : Tell again runs (.failed e)) :
    e.IsFinal ∧ ∃ r ∈ runs, r.outcome = .error e := by
  cases h with
  | failed hbefore hle hlast he => exact ⟨he, _, by simp, hlast⟩

end SampleRun

namespace Grammar

open SampleRun (Tell ForOneWord samples takenBy samples_append)

variable {g : Grammar}

theorem exists_runs_attempt (g : Grammar) (again : Nat) (d : Draws) :
    ∃ runs, g.Runs d runs ∧ (g.attempt again d).2 = d.skip (takenBy runs) ∧
      Tell again runs (g.attempt again d).1 := by
  have hnone : ∀ r ∈ ([] : List SampleRun), r.IsExhausted := nofun
  fun_induction attempt g again d with
  | case1 again d s left h =>
      obtain ⟨n, rfl, hrun⟩ := exists_run h
      exact ⟨_, hrun, rfl, .found hnone (Nat.zero_le again) rfl⟩
  | case2 d depth left h =>
      obtain ⟨n, rfl, hrun⟩ := exists_run h
      exact ⟨_, hrun, rfl, .givenUp hnone rfl rfl⟩
  | case3 d depth left h again ih =>
      obtain ⟨n, rfl, hrun⟩ := exists_run h
      obtain ⟨runs, hruns, hleft, htell⟩ := ih
      refine ⟨⟨.error (.depthExhausted depth), n⟩ :: runs, hrun.append hruns, ?_,
        htell.cons ⟨depth, rfl⟩⟩
      rw [hleft, Draws.skip_skip]
      rfl
  | case4 again d e left he h =>
      obtain ⟨n, rfl, hrun⟩ := exists_run h
      exact ⟨_, hrun, rfl, .failed hnone (Nat.zero_le again) rfl he⟩

/-! ## The runs for all words -/

/-- What comes of sampling so many words after those found already, by the runs for each of them. -/
inductive Gathers : List Sample → Nat → List (List SampleRun) →
    Except SampleError (List Sample) → Prop
  | done {found : List Sample} : Gathers found 0 [] (.ok found)
  | found {found : List Sample} {amount : Nat} {runs : List SampleRun}
      {words : List (List SampleRun)} {result : Except SampleError (List Sample)} {s : Sample}
      (hruns : Tell 15 runs (.found s)) (hrest : Gathers (found ++ [s]) amount words result) :
      Gathers found (amount + 1) (runs :: words) result
  | skipped {found : List Sample} {amount : Nat} {runs : List SampleRun}
      {words : List (List SampleRun)} {result : Except SampleError (List Sample)} {e : SampleError}
      (hruns : Tell 15 runs (.givenUp e)) (hfound : found ≠ [])
      (hrest : Gathers found amount words result) : Gathers found (amount + 1) (runs :: words) result
  | givenUp {amount : Nat} {runs : List SampleRun} {e : SampleError}
      (hruns : Tell 15 runs (.givenUp e)) : Gathers [] (amount + 1) [runs] (.error e)
  | failed {found : List Sample} {amount : Nat} {runs : List SampleRun} {e : SampleError}
      (hruns : Tell 15 runs (.failed e)) : Gathers found (amount + 1) [runs] (.error e)

theorem exists_runs_sampleAfter (g : Grammar) (found : List Sample) (amount : Nat) (d : Draws) :
    ∃ words, g.Runs d words.flatten ∧
      (g.sampleAfter found amount d).2 = d.skip (takenBy words.flatten) ∧
      Gathers found amount words (g.sampleAfter found amount d).1 := by
  have hattempt : ∀ {d a left}, g.attempt (attemptLimit - 1) d = (a, left) →
      ∃ runs, g.Runs d runs ∧ left = d.skip (takenBy runs) ∧ Tell 15 runs a := by
    intro d a left h
    obtain ⟨runs, hruns, hleft, htell⟩ := exists_runs_attempt g (attemptLimit - 1) d
    rw [h] at hleft htell
    exact ⟨runs, hruns, hleft, htell⟩
  fun_induction sampleAfter g found amount d with
  | case1 found d => exact ⟨[], .nil, rfl, .done⟩
  | case2 found d amount s left h ih =>
      obtain ⟨runs, hruns, rfl, htell⟩ := hattempt h
      obtain ⟨words, hwords, hleft, hgathers⟩ := ih
      refine ⟨runs :: words, hruns.append hwords, ?_, .found htell hgathers⟩
      rw [hleft, Draws.skip_skip, List.flatten_cons, takenBy_append]
  | case3 found d amount e left h hempty =>
      obtain ⟨runs, hruns, rfl, htell⟩ := hattempt h
      obtain rfl : found = [] := List.isEmpty_iff.1 hempty
      refine ⟨[runs], ?_, ?_, .givenUp htell⟩
      · rwa [List.flatten_singleton]
      · rw [List.flatten_singleton]
  | case4 found d amount e left h hne ih =>
      obtain ⟨runs, hruns, rfl, htell⟩ := hattempt h
      obtain ⟨words, hwords, hleft, hgathers⟩ := ih
      refine ⟨runs :: words, hruns.append hwords, ?_, .skipped htell ?_ hgathers⟩
      · rw [hleft, Draws.skip_skip, List.flatten_cons, takenBy_append]
      · exact fun hnil => hne (List.isEmpty_iff.2 hnil)
  | case5 found d amount e left h =>
      obtain ⟨runs, hruns, rfl, htell⟩ := hattempt h
      refine ⟨[runs], ?_, ?_, .failed htell⟩
      · rwa [List.flatten_singleton]
      · rw [List.flatten_singleton]

namespace Gathers

variable {found : List Sample} {amount : Nat} {words : List (List SampleRun)}
  {result : Except SampleError (List Sample)}

theorem forOneWord (h : Gathers found amount words result) :
    ∀ runs ∈ words, ForOneWord runs := by
  induction h with
  | done => exact nofun
  | found hruns _ ih => exact List.forall_mem_cons.2 ⟨hruns.forOneWord, ih⟩
  | skipped hruns _ _ ih => exact List.forall_mem_cons.2 ⟨hruns.forOneWord, ih⟩
  | givenUp hruns => exact List.forall_mem_singleton.2 hruns.forOneWord
  | failed hruns => exact List.forall_mem_singleton.2 hruns.forOneWord

theorem length_le (h : Gathers found amount words result) : words.length ≤ amount := by
  induction h with
  | done => exact Nat.le_refl 0
  | found _ _ ih => exact Nat.succ_le_succ ih
  | skipped _ _ _ ih => exact Nat.succ_le_succ ih
  | givenUp _ => exact Nat.succ_le_succ (Nat.zero_le _)
  | failed _ => exact Nat.succ_le_succ (Nat.zero_le _)

/-- A list that is returned holds what the runs for each of the words found, one at most for each. -/
theorem of_ok {list : List Sample} (h : Gathers found amount words (.ok list)) :
    words.length = amount ∧ list = found ++ samples words.flatten ∧
      (samples words.flatten).length ≤ amount ∧ (found ≠ [] ∨ 1 ≤ amount → list ≠ []) := by
  generalize hresult : Except.ok list = result at h
  induction h with
  | done =>
      cases hresult
      exact ⟨rfl, (List.append_nil _).symm, Nat.le_refl 0, fun hne => hne.resolve_right (by omega)⟩
  | @found found amount runs words result s hruns hrest ih =>
      obtain ⟨hlength, hlist, hle, hne⟩ := ih hresult
      rw [List.flatten_cons, samples_append, hruns.samples_found]
      refine ⟨congrArg (· + 1) hlength, ?_, ?_, fun _ => hne (.inl (by simp))⟩
      · rw [hlist, List.append_assoc]
      · rw [List.length_append, List.length_singleton]
        omega
  | @skipped found amount runs words result e hruns hfound hrest ih =>
      obtain ⟨hlength, hlist, hle, hne⟩ := ih hresult
      rw [List.flatten_cons, samples_append,
        SampleRun.samples_of_isExhausted hruns.isExhausted_of_givenUp, List.nil_append]
      exact ⟨congrArg (· + 1) hlength, hlist, Nat.le_succ_of_le hle, fun _ => hne (.inl hfound)⟩
  | givenUp => cases hresult
  | failed => cases hresult

/-- An exhausted depth is returned for the first word only. -/
theorem of_exhausted {depth : Nat}
    (h : Gathers found amount words (.error (.depthExhausted depth))) :
    found = [] ∧ 1 ≤ amount ∧
      ∃ runs, words = [runs] ∧ Tell 15 runs (.givenUp (.depthExhausted depth)) := by
  generalize hresult : Except.error (SampleError.depthExhausted depth) = result at h
  induction h with
  | done => cases hresult
  | found _ _ ih => exact absurd (ih hresult).1 (by simp)
  | skipped _ hfound _ ih => exact absurd (ih hresult).1 hfound
  | givenUp hruns =>
      cases hresult
      exact ⟨rfl, Nat.succ_pos _, _, rfl, hruns⟩
  | failed hruns =>
      cases hresult
      exact absurd rfl (hruns.exists_of_failed.1 depth)

/-- Of the runs for all words those for the first may be left out, if none of them ended so. -/
theorem exists_error_cons_iff {runs : List SampleRun} {e : SampleError}
    (hnone : ∀ r ∈ runs, r.outcome ≠ .error e) (words : List (List SampleRun)) :
    (∃ r ∈ (runs :: words).flatten, r.outcome = .error e) ↔
      ∃ r ∈ words.flatten, r.outcome = .error e := by
  rw [List.flatten_cons]
  constructor
  · rintro ⟨r, hr, herror⟩
    rcases List.mem_append.1 hr with hr | hr
    · exact absurd herror (hnone r hr)
    · exact ⟨r, hr, herror⟩
  · rintro ⟨r, hr, herror⟩
    exact ⟨r, List.mem_append_right _ hr, herror⟩

theorem error_iff {e : SampleError} (he : e.IsFinal) (h : Gathers found amount words result) :
    result = .error e ↔ ∃ r ∈ words.flatten, r.outcome = .error e := by
  have hnone : ∀ {runs a}, Tell 15 runs a → a ≠ .failed e → ∀ r ∈ runs, r.outcome ≠ .error e :=
    fun hruns hne r hr herror => hne (hruns.eq_failed hr herror he)
  induction h with
  | done => exact ⟨nofun, nofun⟩
  | found hruns _ ih => exact ih.trans (exists_error_cons_iff (hnone hruns nofun) _).symm
  | skipped hruns _ _ ih => exact ih.trans (exists_error_cons_iff (hnone hruns nofun) _).symm
  | @givenUp amount runs e' hruns =>
      rw [exists_error_cons_iff (hnone hruns nofun)]
      constructor
      · intro heq
        cases heq
        cases hruns
        exact absurd rfl (he _)
      · exact nofun
  | @failed found amount runs e' hruns =>
      rw [List.flatten_singleton]
      obtain ⟨-, r, hr, herror⟩ := hruns.exists_of_failed
      constructor
      · intro heq
        cases heq
        exact ⟨r, hr, herror⟩
      · rintro ⟨r, hr, herror⟩
        cases hruns.eq_failed hr herror he
        rfl

/-- Nothing is run after a run that failed for good. -/
theorem error_last {e : SampleError} (he : e.IsFinal) (h : Gathers found amount words result) :
    ∀ r ∈ words.flatten.dropLast, r.outcome ≠ .error e := by
  have hword : ∀ {runs a}, Tell 15 runs a → ∀ r ∈ runs.dropLast, r.outcome ≠ .error e :=
    fun hruns r hr herror =>
      SampleRun.not_isExhausted_of_isFinal herror he (hruns.forOneWord.exhausted r hr)
  have hcons : ∀ {runs a words}, Tell 15 runs a → a ≠ .failed e →
      (∀ r ∈ words.flatten.dropLast, r.outcome ≠ .error e) →
      ∀ r ∈ (runs :: words).flatten.dropLast, r.outcome ≠ .error e := by
    intro runs a words hruns hne hrest r hr herror
    rw [List.flatten_cons, List.dropLast_append] at hr
    split at hr
    · exact hword hruns r hr herror
    · rcases List.mem_append.1 hr with hr | hr
      · exact hne (hruns.eq_failed hr herror he)
      · exact hrest r hr herror
  induction h with
  | done => exact nofun
  | found hruns _ ih => exact hcons hruns nofun ih
  | skipped hruns _ _ ih => exact hcons hruns nofun ih
  | givenUp hruns =>
      rw [List.flatten_singleton]
      exact hword hruns
  | failed hruns =>
      rw [List.flatten_singleton]
      exact hword hruns

theorem keeps {r : SampleRun} {s : Sample} (h : Gathers [] amount words result)
    (hr : r ∈ words.flatten) (hs : r.outcome = .ok s) :
    (∃ list, result = .ok list ∧ s ∈ list) ∨ ∃ e : SampleError, e.IsFinal ∧ result = .error e := by
  cases result with
  | ok list =>
      obtain ⟨-, rfl, -⟩ := h.of_ok
      refine .inl ⟨_, rfl, List.mem_filterMap.2 ⟨r, hr, ?_⟩⟩
      rw [hs]
      rfl
  | error e =>
      refine .inr ⟨e, fun depth hdepth => ?_, rfl⟩
      obtain ⟨-, -, runs, rfl, hruns⟩ := (hdepth ▸ h).of_exhausted
      rw [List.flatten_singleton] at hr
      exact SampleRun.not_isExhausted_of_ok hs (hruns.isExhausted_of_givenUp r hr)

end Gathers

/-! ## Sampling -/

theorem attempt_of_exhausted {runs : List SampleRun} {again depth : Nat} (hruns : g.Runs d runs)
    (hlength : runs.length = again + 1)
    (hall : ∀ r ∈ runs, r.outcome = .error (.depthExhausted depth)) :
    (g.attempt again d).1 = .givenUp (.depthExhausted depth) := by
  induction again generalizing runs d with
  | zero =>
      cases hruns with
      | nil => cases hlength
      | @cons d r rest hrun hrest =>
          rw [hall r List.mem_cons_self] at hrun
          rw [attempt, hrun]
  | succ again ih =>
      cases hruns with
      | nil => cases hlength
      | @cons d r rest hrun hrest =>
          rw [hall r List.mem_cons_self] at hrun
          rw [attempt, hrun]
          exact ih hrest (Nat.succ.inj hlength) fun r hr => hall r (List.mem_cons_of_mem _ hr)

/-- What the runs for all the words say of the result. -/
structure SampleReport (g : Grammar) (amount : Nat) (d : Draws) (words : List (List SampleRun))
    (result : Except SampleError (List Sample)) : Prop where
  runs : g.Runs d words.flatten
  length_le : words.length ≤ amount
  forOneWord : ∀ runs ∈ words, ForOneWord runs
  /-- A list is returned when all the words were tried for, and then it holds what was found. -/
  of_ok : ∀ list, result = .ok list → list = samples words.flatten ∧ words.length = amount ∧
    list.length ≤ amount ∧ (1 ≤ amount → list ≠ [])
  /-- After an exhausted depth is returned for the first word, no other word is tried for. -/
  of_exhausted : ∀ depth, result = .error (.depthExhausted depth) → words.length = 1
  exhausted_iff : ∀ depth, result = .error (.depthExhausted depth) ↔
    1 ≤ amount ∧ ∃ runs, g.Runs d runs ∧ runs.length = 16 ∧
      ∀ r ∈ runs, r.outcome = .error (.depthExhausted depth)
  error_iff : ∀ e : SampleError, e.IsFinal →
    (result = .error e ↔ ∃ r ∈ words.flatten, r.outcome = .error e)
  /-- Such an error ends the sampling. -/
  error_last : ∀ e : SampleError, e.IsFinal → ∀ r ∈ words.flatten.dropLast, r.outcome ≠ .error e
  /-- No word is lost to an exhausted depth. -/
  keeps : ∀ r ∈ words.flatten, ∀ s, r.outcome = .ok s → (∃ list, result = .ok list ∧ s ∈ list) ∨
    ∃ e : SampleError, e.IsFinal ∧ result = .error e

theorem sampleAfter_of_exhausted {runs : List SampleRun} {amount depth : Nat} (hamount : 1 ≤ amount)
    (hruns : g.Runs d runs) (hlength : runs.length = 16)
    (hall : ∀ r ∈ runs, r.outcome = .error (.depthExhausted depth)) :
    (g.sampleAfter [] amount d).1 = .error (.depthExhausted depth) := by
  obtain ⟨amount, rfl⟩ : ∃ m, amount = m + 1 := ⟨amount - 1, by omega⟩
  have hattempt : (g.attempt (attemptLimit - 1) d).1 = .givenUp (.depthExhausted depth) :=
    attempt_of_exhausted hruns hlength hall
  rcases hcases : g.attempt (attemptLimit - 1) d with ⟨a, left⟩
  obtain rfl : a = .givenUp (.depthExhausted depth) := by rwa [hcases] at hattempt
  rw [sampleAfter, hcases]
  rfl

theorem Gathers.exhausted_iff {amount depth : Nat} {words : List (List SampleRun)}
    (hruns : g.Runs d words.flatten) (h : Gathers [] amount words (g.sampleAfter [] amount d).1) :
    (g.sampleAfter [] amount d).1 = .error (.depthExhausted depth) ↔
      1 ≤ amount ∧ ∃ runs, g.Runs d runs ∧ runs.length = 16 ∧
        ∀ r ∈ runs, r.outcome = .error (.depthExhausted depth) := by
  constructor
  · intro hresult
    rw [hresult] at h
    obtain ⟨-, hamount, runs, rfl, htell⟩ := h.of_exhausted
    rw [List.flatten_singleton] at hruns
    refine ⟨hamount, runs, hruns, ?_, fun r hr => ?_⟩
    · cases htell with
      | givenUp _ hlength _ => simp [hlength]
    · -- All of them exhaust the same depth, that of the grammar.
      obtain ⟨last, hlast, hdepth⟩ : ∃ r ∈ runs, r.outcome = .error (.depthExhausted depth) := by
        cases htell with
        | givenUp _ _ hlast => exact ⟨_, by simp, hlast⟩
      obtain ⟨depth', hdepth'⟩ := htell.isExhausted_of_givenUp r hr
      cases (hruns.depth_eq hlast hdepth).symm.trans (hruns.depth_eq hr hdepth')
      exact hdepth'
  · rintro ⟨hamount, runs, hfirst, hlength, hall⟩
    exact sampleAfter_of_exhausted hamount hfirst hlength hall

theorem sample_of_le_capacity {amount : Nat} (h : amount ≤ sampleCapacity) (g : Grammar) :
    g.sample amount = some (g.sampleAfter [] amount) := if_pos h

theorem sample_of_capacity_lt {amount : Nat} (h : sampleCapacity < amount) (g : Grammar) :
    g.sample amount = none := if_neg (Nat.not_le.2 h)

/-- Up to the capacity of a list there is something to run, and what it returns for any list of draws is
told by runs of `generate` in a row, sixteen at most for each word that was asked for: the draws it
takes are theirs, and a list holds what they found, in order, and not nothing if any word was asked for.
An exhausted depth is returned if the first sixteen runs exhaust it. Any other error of a run is
returned at once, and no other error is. A word that was found is returned unless such an error comes
later. Beyond the capacity there is nothing to run. -/
theorem sample_reports_runs (g : Grammar) (amount : Nat) :
    (amount ≤ sampleCapacity → ∃ run, g.sample amount = some run ∧
      ∀ d, ∃ words, (run d).2 = d.skip (takenBy words.flatten) ∧
        g.SampleReport amount d words (run d).1) ∧
    (sampleCapacity < amount → g.sample amount = none) := by
  refine ⟨fun hroom => ⟨_, sample_of_le_capacity hroom g, fun d => ?_⟩,
    fun hroom => sample_of_capacity_lt hroom g⟩
  obtain ⟨words, hruns, hleft, hgathers⟩ := exists_runs_sampleAfter g [] amount d
  refine ⟨words, hleft, ?_⟩
  exact {
    runs := hruns
    length_le := hgathers.length_le
    forOneWord := hgathers.forOneWord
    of_ok := by
      intro list hlist
      rw [hlist] at hgathers
      obtain ⟨hlength, rfl, hle, hne⟩ := hgathers.of_ok
      exact ⟨rfl, hlength, hle, fun hamount => hne (.inr hamount)⟩
    of_exhausted := by
      intro depth hresult
      rw [hresult] at hgathers
      obtain ⟨-, -, runs, rfl, -⟩ := hgathers.of_exhausted
      rfl
    exhausted_iff := fun depth => hgathers.exhausted_iff hruns
    error_iff := fun e he => hgathers.error_iff he
    error_last := fun e he => hgathers.error_last he
    keeps := fun r hr s hs => hgathers.keeps hr hs }

/-- A grammar whose depth is exhausted by every run. -/
def endless : List Edit :=
  [.addTerminal "a", .addNonterminal "S", .addRules "S->aS", .setLevels "0"]

theorem runs_endless (n : Nat) : (ofEdits endless).Runs (.ofList [])
    (List.replicate n ⟨.error (.depthExhausted 0), 0⟩) := by
  have hrun : (ofEdits endless).generate (.ofList []) =
      (.error (.depthExhausted 0), (Draws.ofList []).skip 0) := by
    decide +kernel
  induction n with
  | zero => exact .nil
  | succ n ih => exact .cons hrun ih

/-- It is not so for every amount that an exhausted depth is returned exactly if the first sixteen runs
exhaust it. Where there is no room they are not even made. -/
theorem no_result_without_room : ¬ ∀ (edits : List Edit) (amount depth : Nat) (d : Draws),
    (∃ run, (ofEdits edits).sample amount = some run ∧
        (run d).1 = .error (.depthExhausted depth)) ↔
      1 ≤ amount ∧ ∃ runs, (ofEdits edits).Runs d runs ∧ runs.length = 16 ∧
        ∀ r ∈ runs, r.outcome = .error (.depthExhausted depth) := by
  intro h
  have hall : ∀ r ∈ List.replicate 16 (SampleRun.mk (.error (.depthExhausted 0)) 0),
      r.outcome = .error (.depthExhausted 0) := fun r hr => by
    rw [List.eq_of_mem_replicate hr]
  have hlarge : sampleCapacity < 18446744073709551615 := by decide
  obtain ⟨run, hrun, -⟩ := (h endless 18446744073709551615 0 (.ofList [])).2
    ⟨by decide, _, runs_endless 16, List.length_replicate, hall⟩
  rw [sample_of_capacity_lt hlarge] at hrun
  cases hrun

/-- The second word is given up after sixteen attempts, and the third is found. -/
example : ((ofEdits [.addTerminal "a", .addNonterminal "S", .addRules "S->a|aS",
      .setLevels "1"]).sampleAfter [] 3
        (.ofList ([0, 2147483648] ++ List.replicate 32 0 ++ [0, 2147483648]))).1 =
    .ok [⟨"a", ["S", "a"]⟩, ⟨"a", ["S", "a"]⟩] := by
  decide +kernel

end Grammar

end LinearGrammar
