import Polkadot.BTreeMap
import Polkadot.CandidateAgreement.Invariant

/-!
# The proposal

`proposed_candidates` walks the records of `candidate_votes` in the order the hash map
enumerates them, keeps those that `can_be_included` at the requisite votes of their group,
and keeps in a `BTreeMap` the greatest candidate of each group seen so far.  Its result is
the values of that map, in ascending group order.

Whatever the order of enumeration, the map holds at each group exactly the greatest
candidate of the group's records that pass the test (`get_bestCandidates_eq_some`), so the
result depends only on which candidates of which groups pass it
(`proposedCandidates_congr`).  On a reachable table, passing the test is being includable
in the sense of the votes (`Includable`): no invalidity vote, and enough validators who
voted valid and who vouched for availability.
-/

namespace CandidateAgreement

variable {V D C G S : Type}

/-! ### The code -/

section Code

variable [LinearOrder C] [LinearOrder G] (ctx : Context V D C G S)

/-- The test of `proposed_candidates`: `can_be_included` at the requisite votes of the
record's group. -/
def CandidateData.hasRequisiteVotes (r : CandidateData V C G S) : Bool :=
  r.canBeIncluded (ctx.requisiteVotes r.groupId).1 (ctx.requisiteVotes r.groupId).2

/-- The body of the loop of `proposed_candidates`: a record that passes the test becomes the
best candidate of its group if the group has none or a smaller one. -/
def noteBestCandidate (bestCandidates : BTreeMap G C) (candidateData : CandidateData V C G S) :
    BTreeMap G C :=
  if !candidateData.hasRequisiteVotes ctx then bestCandidates
  else
    match bestCandidates.get candidateData.groupId with
    | some candidateRef =>
      if candidateRef < candidateData.candidate then
        bestCandidates.insert candidateData.groupId candidateData.candidate
      else bestCandidates
    | none => bestCandidates.insert candidateData.groupId candidateData.candidate

/-- The map `proposed_candidates` builds from the records `values`. -/
def bestCandidates (values : List (CandidateData V C G S)) : BTreeMap G C :=
  values.foldl (noteBestCandidate ctx) .new

/-- `proposed_candidates`, for the records `values` of `candidate_votes` in the order of
enumeration of the map. -/
def proposedCandidates (values : List (CandidateData V C G S)) : List C :=
  (bestCandidates ctx values).values

/-- `candidates_in_group`: the records of a group, in the order of enumeration `values`. -/
def candidatesInGroup (values : List (CandidateData V C G S)) (groupId : G) :
    List (CandidateData V C G S) :=
  values.filter fun c => c.groupId = groupId

end Code

/-! ### The greatest candidate of each group -/

section Best

variable (ctx : Context V D C G S)

/-- Group `g` has a record of candidate `c` among `values` that passes the test. -/
def Passes [LinearOrder C] [LinearOrder G] (values : List (CandidateData V C G S)) (g : G)
    (c : C) : Prop :=
  ∃ r ∈ values, r.hasRequisiteVotes ctx = true ∧ r.groupId = g ∧ r.candidate = c

/-- `c` is the greatest candidate of group `g` that passes the test among `values`. -/
def IsBest [LinearOrder C] [LinearOrder G] (values : List (CandidateData V C G S)) (g : G)
    (c : C) : Prop :=
  Passes ctx values g c ∧ ∀ c', Passes ctx values g c' → c' ≤ c

/-- What the map holds after the records `values`: at each group the greatest candidate
that passes the test, and a candidate at every group some record of which passes it. -/
structure BestMap [LinearOrder C] [LinearOrder G] (values : List (CandidateData V C G S))
    (best : BTreeMap G C) : Prop where
  isBest : ∀ g c, best.get g = some c → IsBest ctx values g c
  isSome : ∀ g c, Passes ctx values g c → (best.get g).isSome

variable {ctx} [LinearOrder C] [LinearOrder G] {values values' : List (CandidateData V C G S)}
  {best best' : BTreeMap G C} {r : CandidateData V C G S} {g : G} {c : C}

theorem IsBest.unique {c' : C} (h : IsBest ctx values g c) (h' : IsBest ctx values g c') :
  c = c'
  := le_antisymm (h'.2 c h.1) (h.2 c' h'.1)

theorem IsBest.congr (h : ∀ g c, Passes ctx values g c ↔ Passes ctx values' g c)
    (hb : IsBest ctx values g c) :
  IsBest ctx values' g c
  := ⟨(h g c).mp hb.1, fun c' hc' => hb.2 c' ((h g c').mpr hc')⟩

theorem passes_append_singleton :
  Passes ctx (values ++ [r]) g c ↔
    Passes ctx values g c ∨ r.hasRequisiteVotes ctx = true ∧ r.groupId = g ∧ r.candidate = c
  := by
  simp [Passes, or_and_right, exists_or]

/-- A record that does not beat the best candidate of its group leaves it the best. -/
theorem IsBest.append (hb : IsBest ctx values g c)
    (hr : r.hasRequisiteVotes ctx = true → r.groupId = g → r.candidate ≤ c) :
  IsBest ctx (values ++ [r]) g c
  := by
  refine ⟨passes_append_singleton.mpr (.inl hb.1), fun c' hc' => ?_⟩
  rcases passes_append_singleton.mp hc' with hc' | ⟨hp, hg, rfl⟩
  · exact hb.2 c' hc'
  · exact hr hp hg

theorem BestMap.new :
  BestMap ctx [] (.new : BTreeMap G C)
  := ⟨fun _ _ h => by simp at h, fun _ _ ⟨_, h, _⟩ => by simp at h⟩

/-- A map that changes at most at the group of a passing record, and holds there the best
candidate, is the best map of the records with that one appended. -/
theorem BestMap.update (h : BestMap ctx values best)
    (hne : ∀ g, g ≠ r.groupId → best'.get g = best.get g)
    (hself : best'.get r.groupId = some c) (hbest : IsBest ctx (values ++ [r]) r.groupId c) :
  BestMap ctx (values ++ [r]) best'
  := by
  refine ⟨fun g c' hg => ?_, fun g c' hp => ?_⟩
  · by_cases hgr : g = r.groupId
    · subst hgr
      rw [hself, Option.some.injEq] at hg
      exact hg ▸ hbest
    · rw [hne g hgr] at hg
      exact (h.isBest g c' hg).append fun _ hrg => (hgr hrg.symm).elim
  · by_cases hgr : g = r.groupId
    · simp [hgr, hself]
    · rw [hne g hgr]
      rcases passes_append_singleton.mp hp with hp | ⟨-, hrg, -⟩
      · exact h.isSome g c' hp
      · exact (hgr hrg.symm).elim

/-- One turn of the loop keeps the map the best of the records seen. -/
theorem BestMap.noteBestCandidate (h : BestMap ctx values best) (r : CandidateData V C G S) :
  BestMap ctx (values ++ [r]) (CandidateAgreement.noteBestCandidate ctx best r)
  := by
  unfold CandidateAgreement.noteBestCandidate
  by_cases hr : r.hasRequisiteVotes ctx = true
  · have hins : ∀ g, g ≠ r.groupId → (best.insert r.groupId r.candidate).get g = best.get g :=
      fun g hg => by simp [Ne.symm hg]
    have hself : IsBest ctx (values ++ [r]) r.groupId r.candidate ↔
        ∀ c', Passes ctx values r.groupId c' → c' ≤ r.candidate := by
      refine ⟨fun hb c' hc' => hb.2 c' (passes_append_singleton.mpr (.inl hc')),
        fun hle => ⟨passes_append_singleton.mpr (.inr ⟨hr, rfl, rfl⟩), fun c' hc' => ?_⟩⟩
      rcases passes_append_singleton.mp hc' with hc' | ⟨-, -, rfl⟩
      · exact hle c' hc'
      · exact le_rfl
    simp only [hr, Bool.not_true, Bool.false_eq_true, if_false]
    rcases hg : best.get r.groupId with _ | cur
    · refine h.update hins (by simp) (hself.mpr fun c' hc' => ?_)
      simpa [hg] using h.isSome _ c' hc'
    · have hcur := h.isBest _ cur hg
      dsimp only
      split_ifs with hlt
      · exact h.update hins (by simp) (hself.mpr fun c' hc' => (hcur.2 c' hc').trans hlt.le)
      · exact h.update (fun _ _ => rfl) hg (hcur.append fun _ _ => not_lt.mp hlt)
  · have hp : ∀ g c, Passes ctx (values ++ [r]) g c ↔ Passes ctx values g c := fun g c => by
      simp [passes_append_singleton, hr]
    simp only [hr, Bool.not_false, if_true]
    exact ⟨fun g c hg => (h.isBest g c hg).congr fun g c => (hp g c).symm,
      fun g c hc => h.isSome g c ((hp g c).mp hc)⟩

theorem bestMap_foldl (pre values : List (CandidateData V C G S)) (h : BestMap ctx pre best) :
  BestMap ctx (pre ++ values) (values.foldl (CandidateAgreement.noteBestCandidate ctx) best)
  := by
  induction values generalizing pre best with
  | nil => simpa using h
  | cons r rest ih =>
    rw [List.foldl_cons, ← List.singleton_append, ← List.append_assoc]
    exact ih _ (h.noteBestCandidate r)

/-- Whatever the order of the records, the map holds at each group exactly the greatest
candidate of the group that passes the test. -/
theorem get_bestCandidates_eq_some :
  (bestCandidates ctx values).get g = some c ↔ IsBest ctx values g c
  := by
  have h : BestMap ctx values (bestCandidates ctx values) := by
    simpa using bestMap_foldl [] values .new
  refine ⟨h.isBest g c, fun hb => ?_⟩
  obtain ⟨c', hc'⟩ := Option.isSome_iff_exists.mp (h.isSome g c hb.1)
  rw [hc', hb.unique (h.isBest g c' hc')]

/-- `proposed_candidates` depends only on which candidates of which groups pass the test. -/
theorem proposedCandidates_congr (h : ∀ g c, Passes ctx values g c ↔ Passes ctx values' g c) :
  proposedCandidates ctx values = proposedCandidates ctx values'
  := by
  unfold proposedCandidates
  congr 1
  refine BTreeMap.ext fun g => Option.ext fun c => ?_
  simp only [Option.mem_def, get_bestCandidates_eq_some]
  exact ⟨.congr h, .congr fun g c => (h g c).symm⟩

/-- `proposed_candidates` does not depend on the order in which the hash map enumerates
its records. -/
theorem proposedCandidates_perm (h : values.Perm values') :
  proposedCandidates ctx values = proposedCandidates ctx values'
  := proposedCandidates_congr fun g c => by simp only [Passes, h.mem_iff]

/-- Two includable records of group 2, each with its proposer's vote, in the two orders. -/
theorem proposedCandidates_perm_includable :
  proposedCandidates (oneVoteContext fourValidators)
      [⟨2, toLex (2, 100), AList.insert 1 (.issued 1) ∅, ∅, []⟩,
        ⟨2, toLex (2, 200), AList.insert 2 (.issued 2) ∅, ∅, []⟩] =
    proposedCandidates (oneVoteContext fourValidators)
      [⟨2, toLex (2, 200), AList.insert 2 (.issued 2) ∅, ∅, []⟩,
        ⟨2, toLex (2, 100), AList.insert 1 (.issued 1) ∅, ∅, []⟩]
  := proposedCandidates_perm (.swap _ _ _)

/-- Both orders of the witness above propose the greater candidate `(2, 200)`. -/
example :
  proposedCandidates (oneVoteContext fourValidators)
      [⟨2, toLex (2, 100), AList.insert 1 (.issued 1) ∅, ∅, []⟩,
        ⟨2, toLex (2, 200), AList.insert 2 (.issued 2) ∅, ∅, []⟩] = [toLex (2, 200)]
  := rfl

end Best

/-! ### Includable records -/

section Includable

variable [DecidableEq V] [DecidableEq D] [DecidableEq S] [LinearOrder C] [LinearOrder G]
  {ctx : Context V D C G S} {r : CandidateData V C G S} {d : D}

/-- A record is includable: no validator voted its candidate invalid, and at least the
requisite numbers of validators of its group voted it valid and vouched for its
availability. -/
def Includable (ctx : Context V D C G S) (r : CandidateData V C G S) : Prop :=
  (∀ v s, r.validityVotes.lookup v ≠ some (.invalid s)) ∧
    (ctx.requisiteVotes r.groupId).1 ≤ r.votedValidBy.length ∧
    (ctx.requisiteVotes r.groupId).2 ≤ r.availabilityVotes.entries.length

omit [DecidableEq D] [DecidableEq S] [LinearOrder C] [LinearOrder G] in
/-- Without invalidity votes, every validity voter voted valid. -/
theorem length_votedValidBy (h : ∀ v s, r.validityVotes.lookup v ≠ some (.invalid s)) :
  r.votedValidBy.length = r.validityVotes.entries.length
  := by
  have hmap : r.votedValidBy = r.validityVotes.entries.map Sigma.fst :=
    List.filterMap_eq_map_iff_forall_eq_some.mpr fun ⟨v, vote⟩ he => by
      cases vote with
      | issued s => rfl
      | valid s => rfl
      | invalid s => exact absurd (AList.mem_lookup_iff.mpr he) (h v s)
  rw [hmap, List.length_map]

omit [DecidableEq D] [DecidableEq S] [LinearOrder C] [LinearOrder G] in
/-- On a well-formed record the test of `proposed_candidates` is includability: the list
`indicated_bad_by` is empty exactly when nobody voted invalid, and then all validity votes
count as votes for validity. -/
theorem CandidateData.WellFormed.hasRequisiteVotes_iff (hW : r.WellFormed ctx d) :
  r.hasRequisiteVotes ctx = true ↔ Includable ctx r
  := by
  have hbad : r.indicatedBadBy.isEmpty = true ↔ ∀ v s, r.validityVotes.lookup v ≠ some (.invalid s) := by
    simp [List.isEmpty_iff, List.eq_nil_iff_forall_not_mem, hW.mem_indicatedBadBy]
  simp only [CandidateData.hasRequisiteVotes, CandidateData.canBeIncluded, Bool.and_eq_true,
    decide_eq_true_eq, hbad, Includable]
  constructor
  · rintro ⟨⟨hno, hv⟩, ha⟩
    exact ⟨hno, (length_votedValidBy hno).symm ▸ hv, ha⟩
  · rintro ⟨hno, hv, ha⟩
    exact ⟨⟨hno, length_votedValidBy hno ▸ hv⟩, ha⟩

omit [DecidableEq V] [DecidableEq S] [LinearOrder C] [LinearOrder G] in
theorem mem_map_snd_entries {T : Table V D C G S} :
  r ∈ T.candidateVotes.entries.map Sigma.snd ↔ ∃ d, T.candidateVotes.lookup d = some r
  := by
  simpa using exists_congr fun d => AList.mem_lookup_iff.symm

variable {H : List (SignedStatement C D S)} {T : Table V D C G S}
  {values : List (CandidateData V C G S)}

/-- `proposed_candidates` returns the right candidates: whatever the order in which the
hash map enumerates the records of a reachable table, the result is in strictly ascending
order of group, and holds exactly the greatest includable candidate of each group that has
one. -/
theorem proposedCandidates_best (hT : Reachable ctx H T)
    (hv : values.Perm (T.candidateVotes.entries.map Sigma.snd)) :
  ((proposedCandidates ctx values).map ctx.candidateGroup).Sorted (· < ·) ∧
  ∀ c, c ∈ proposedCandidates ctx values ↔
    ∃ d r, T.candidateVotes.lookup d = some r ∧ Includable ctx r ∧ r.candidate = c ∧
      ∀ d' r', T.candidateVotes.lookup d' = some r' → Includable ctx r' →
        r'.groupId = r.groupId → r'.candidate ≤ c
  := by
  have hW := hT.invariant.recordsWellFormed
  have hmem : ∀ r, r ∈ values ↔ ∃ d, T.candidateVotes.lookup d = some r := fun r =>
    hv.mem_iff.trans mem_map_snd_entries
  have hpass : ∀ r ∈ values, r.hasRequisiteVotes ctx = true ↔ Includable ctx r := fun r hr =>
    let ⟨d, hd⟩ := (hmem r).mp hr
    (hW d r hd).hasRequisiteVotes_iff
  refine ⟨?_, fun c => ?_⟩
  · have hkeys : (proposedCandidates ctx values).map ctx.candidateGroup
        = (bestCandidates ctx values).keys := by
      simp only [proposedCandidates, BTreeMap.values, BTreeMap.keys, List.map_map]
      refine List.map_congr_left fun ⟨g, c⟩ he => ?_
      obtain ⟨r, hr, -, hg, hc⟩ := (get_bestCandidates_eq_some.mp (BTreeMap.get_eq_some.mpr he)).1
      obtain ⟨d, hd⟩ := (hmem r).mp hr
      simp only [Function.comp_apply, ← hc, ← hg, (hW d r hd).groupId_eq]
    rw [hkeys]
    exact BTreeMap.keys_sorted _
  · simp only [proposedCandidates, BTreeMap.mem_values, get_bestCandidates_eq_some]
    constructor
    · rintro ⟨g, ⟨r, hr, hp, rfl, rfl⟩, hmax⟩
      obtain ⟨d, hd⟩ := (hmem r).mp hr
      exact ⟨d, r, hd, (hpass r hr).mp hp, rfl, fun d' r' hd' hi' hg' =>
        let hr' := (hmem r').mpr ⟨d', hd'⟩
        hmax _ ⟨r', hr', (hpass r' hr').mpr hi', hg', rfl⟩⟩
    · rintro ⟨d, r, hd, hi, rfl, hmax⟩
      have hr := (hmem r).mpr ⟨d, hd⟩
      refine ⟨r.groupId, ⟨r, hr, (hpass r hr).mpr hi, rfl, rfl⟩, fun c' ⟨r', hr', hp', hg', hc'⟩ => ?_⟩
      obtain ⟨d', hd'⟩ := (hmem r').mp hr'
      exact hc' ▸ hmax d' r' hd' ((hpass r' hr').mp hp') hg'

/-- Validators 1 and 2 of group 2 propose `(2, 100)` and `(2, 200)`, and validator 4 of
group 3 proposes `(3, 50)`, under thresholds that each proposer's own vote meets; the hash map
enumerates the records in reverse. -/
theorem proposedCandidates_best_two_groups :
  ∃ T, run (oneVoteContext fourValidators) create
      [.importStatement ⟨.candidate (toLex (2, 100)), 1⟩,
        .importStatement ⟨.candidate (toLex (2, 200)), 2⟩,
        .importStatement ⟨.candidate (toLex (3, 50)), 4⟩] = .ok T ∧
    ((proposedCandidates (oneVoteContext fourValidators)
        (T.candidateVotes.entries.map Sigma.snd).reverse).map
      (oneVoteContext fourValidators).candidateGroup).Sorted (· < ·) ∧
    ∀ c, c ∈ proposedCandidates (oneVoteContext fourValidators)
        (T.candidateVotes.entries.map Sigma.snd).reverse ↔
      ∃ d r, T.candidateVotes.lookup d = some r ∧ Includable (oneVoteContext fourValidators) r ∧
        r.candidate = c ∧
        ∀ d' r', T.candidateVotes.lookup d' = some r' → Includable (oneVoteContext fourValidators) r' →
          r'.groupId = r.groupId → r'.candidate ≤ c
  := have h : run (oneVoteContext fourValidators) create
        [.importStatement ⟨.candidate (toLex (2, 100)), 1⟩,
          .importStatement ⟨.candidate (toLex (2, 200)), 2⟩,
          .importStatement ⟨.candidate (toLex (3, 50)), 4⟩] = .ok _ := rfl
    ⟨_, h, proposedCandidates_best (Reachable.create.after_run h) (List.reverse_perm _)⟩

/-- The witness above proposes the greater candidate of group 2, then that of group 3. -/
example :
  (run (oneVoteContext fourValidators) create
      [.importStatement ⟨.candidate (toLex (2, 100)), 1⟩,
        .importStatement ⟨.candidate (toLex (2, 200)), 2⟩,
        .importStatement ⟨.candidate (toLex (3, 50)), 4⟩]).map
    (fun T => proposedCandidates (oneVoteContext fourValidators)
      (T.candidateVotes.entries.map Sigma.snd).reverse) = .ok [toLex (2, 200), toLex (3, 50)]
  := rfl

omit [LinearOrder C] in
/-- `candidates_in_group` returns the records of the table whose candidate is of the group. -/
theorem mem_candidatesInGroup (hT : Reachable ctx H T)
    (hv : values.Perm (T.candidateVotes.entries.map Sigma.snd)) {g : G} :
  r ∈ candidatesInGroup values g ↔
    (∃ d, T.candidateVotes.lookup d = some r) ∧ ctx.candidateGroup r.candidate = g
  := by
  simp only [candidatesInGroup, List.mem_filter, decide_eq_true_eq, hv.mem_iff, mem_map_snd_entries]
  constructor
  · rintro ⟨⟨d, hd⟩, rfl⟩
    exact ⟨⟨d, hd⟩, ((hT.invariant.recordsWellFormed d r hd).groupId_eq).symm⟩
  · rintro ⟨⟨d, hd⟩, rfl⟩
    exact ⟨⟨d, hd⟩, (hT.invariant.recordsWellFormed d r hd).groupId_eq⟩

end Includable

end CandidateAgreement
