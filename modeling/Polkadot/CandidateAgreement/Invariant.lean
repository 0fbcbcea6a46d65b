import Polkadot.CandidateAgreement.Growth

/-!
# The representation invariant

`Table.Invariant ctx T`: every record is well formed (it lies under its candidate's digest,
carries its candidate's group, lists in `indicatedBadBy` exactly its invalidity voters, once
each, and holds only votes of members and guarantors of its group); every proposal is backed
by its proposer's vote on the proposed record; and every implicit vote `issued` is the stored
proposal of its voter.  Every call keeps it, so it holds of every reachable table.

From it the `expect` of `import_candidate` never fires, and the `panic!` of `validity_vote`
fires only when two candidates with one digest have two groups; and a record that could be
included stops being includable only by gaining an invalidity vote.
-/

namespace CandidateAgreement

variable {V D C G S : Type} [DecidableEq V] [DecidableEq D]

/-- The invariant of a record stored under the digest `d`. -/
structure CandidateData.WellFormed (ctx : Context V D C G S) (d : D)
    (r : CandidateData V C G S) : Prop where
  digest_eq : ctx.candidateDigest r.candidate = d
  groupId_eq : r.groupId = ctx.candidateGroup r.candidate
  indicatedBadBy_nodup : r.indicatedBadBy.Nodup
  mem_indicatedBadBy : ∀ v, v ∈ r.indicatedBadBy ↔ ∃ s, r.validityVotes.lookup v = some (.invalid s)
  isMemberOf : ∀ v, v ∈ r.validityVotes → ctx.isMemberOf v r.groupId = true
  isAvailabilityGuarantorOf : ∀ v, v ∈ r.availabilityVotes →
    ctx.isAvailabilityGuarantorOf v r.groupId = true

/-- Every stored record is well formed. -/
def Table.RecordsWellFormed (ctx : Context V D C G S) (T : Table V D C G S) : Prop :=
  ∀ d r, T.candidateVotes.lookup d = some r → r.WellFormed ctx d

/-- The proposal of `v`, if any, is backed by a vote of `v` on the proposed record. -/
def Table.ProposalVoted (T : Table V D C G S) (v : V) : Prop :=
  ∀ d s, T.proposedCandidates.lookup v = some (d, s) →
    ∃ r, T.candidateVotes.lookup d = some r ∧ v ∈ r.validityVotes

/-- Every implicit vote is the stored proposal of its voter. -/
def Table.IssuedProposed (T : Table V D C G S) : Prop :=
  ∀ d r v s, T.candidateVotes.lookup d = some r → r.validityVotes.lookup v = some (.issued s) →
    T.proposedCandidates.lookup v = some (d, s)

/-- The representation invariant of the table. -/
structure Table.Invariant (ctx : Context V D C G S) (T : Table V D C G S) : Prop where
  recordsWellFormed : T.RecordsWellFormed ctx
  proposalVoted : ∀ v, T.ProposalVoted v
  issuedProposed : T.IssuedProposed

/-! ### Records -/

section Records

variable {ctx : Context V D C G S} {d : D} {r : CandidateData V C G S} {v : V}

omit [DecidableEq D] in
theorem CandidateData.WellFormed.empty (ctx : Context V D C G S) (c : C) :
  (⟨ctx.candidateGroup c, c, ∅, ∅, []⟩ : CandidateData V C G S).WellFormed ctx
    (ctx.candidateDigest c)
  := ⟨rfl, rfl, List.nodup_nil, by simp, by simp [AList.not_mem_empty],
    by simp [AList.not_mem_empty]⟩

omit [DecidableEq D] in
/-- Filling the vacant validity vote of a member keeps a record well formed. -/
theorem CandidateData.WellFormed.addValidityVote (hr : r.WellFormed ctx d)
    (hv : r.validityVotes.lookup v = none) (hm : ctx.isMemberOf v r.groupId = true)
    (vote : ValidityVote S) :
  (r.addValidityVote v vote).WellFormed ctx d
  := by
  have hbad : v ∉ r.indicatedBadBy := by simp [hr.mem_indicatedBadBy, hv]
  refine ⟨hr.digest_eq, hr.groupId_eq, ?_, fun w => ?_, fun w hw => ?_,
    hr.isAvailabilityGuarantorOf⟩
  · cases vote <;> simp [CandidateData.addValidityVote, hr.indicatedBadBy_nodup,
      List.nodup_append, hbad]
  · rw [mem_addValidityVote_indicatedBadBy, hr.mem_indicatedBadBy]
    by_cases hw : w = v
    · subst hw
      cases vote <;> simp [hv]
    · simp [hw, AList.lookup_insert_ne hw]
  · rcases (AList.mem_insert _).mp hw with rfl | hw
    · exact hm
    · exact hr.isMemberOf w hw

omit [DecidableEq D] in
/-- Recording the availability vote of a guarantor keeps a record well formed. -/
theorem CandidateData.WellFormed.addAvailabilityVote (hr : r.WellFormed ctx d)
    (hg : ctx.isAvailabilityGuarantorOf v r.groupId = true) (s : S) :
  ({ r with availabilityVotes := r.availabilityVotes.insert v s } : CandidateData V C G S).WellFormed
    ctx d
  := by
  refine ⟨hr.digest_eq, hr.groupId_eq, hr.indicatedBadBy_nodup, hr.mem_indicatedBadBy,
    hr.isMemberOf, fun w hw => ?_⟩
  rcases (AList.mem_insert _).mp hw with rfl | hw
  · exact hg
  · exact hr.isAvailabilityGuarantorOf w hw

end Records

/-! ### Tables -/

section Tables

variable {ctx : Context V D C G S} {T T' : Table V D C G S} {v : V} {d : D} {s : S} {c : C}
  {m : Option (Misbehavior C D S)}

theorem Table.Invariant.create :
  (create : Table V D C G S).Invariant ctx
  := ⟨fun _ _ h => by simp [CandidateAgreement.create] at h,
    fun _ _ _ h => by simp [CandidateAgreement.create] at h,
    fun _ _ _ _ h => by simp [CandidateAgreement.create] at h⟩

/-- The invariant reads only the proposals and the records. -/
theorem Table.Invariant.of_eq (hI : T.Invariant ctx)
    (hp : T'.proposedCandidates = T.proposedCandidates)
    (hc : T'.candidateVotes = T.candidateVotes) :
  T'.Invariant ctx
  := by
  obtain ⟨h₁, h₂, h₃⟩ := hI
  refine ⟨?_, ?_, ?_⟩ <;> simpa only [Table.RecordsWellFormed, Table.ProposalVoted,
    Table.IssuedProposed, hp, hc]

/-- A proposal that stays backs itself in an extension. -/
theorem Table.ProposalVoted.of_extends (h : T.ProposalVoted v) (he : T.Extends T')
    (hp : T'.proposedCandidates.lookup v = T.proposedCandidates.lookup v) :
  T'.ProposalVoted v
  := by
  intro d s hds
  obtain ⟨r, hr, hv⟩ := h d s (hp ▸ hds)
  obtain ⟨r', hr', e⟩ := he.candidateVotes d r hr
  obtain ⟨vote, hvote⟩ := Option.isSome_iff_exists.mp (AList.lookup_isSome.mpr hv)
  exact ⟨r', hr', AList.lookup_isSome.mp (by simp [e.validityVotes v vote hvote])⟩

theorem availabilityVote_recordsWellFormed (hW : T.RecordsWellFormed ctx)
    (h : availabilityVote ctx T v d s = (T', m)) :
  T'.RecordsWellFormed ctx
  := by
  rcases availabilityVote_eq h with ⟨-, rfl, -⟩ | ⟨r, hd, ⟨-, rfl, -⟩ | ⟨hg, -, rfl⟩⟩
  · exact hW
  · exact hW
  · intro d' r' h'
    rcases lookup_insert_eq_some.mp h' with ⟨rfl, rfl⟩ | ⟨-, h'⟩
    · exact (hW _ r hd).addAvailabilityVote hg s
    · exact hW d' r' h'

theorem availabilityVote_invariant (hI : T.Invariant ctx)
    (h : availabilityVote ctx T v d s = (T', m)) :
  T'.Invariant ctx
  := by
  have he := availabilityVote_extends h
  have hp : T'.proposedCandidates = T.proposedCandidates := by
    rcases availabilityVote_eq h with ⟨-, rfl, -⟩ | ⟨r, -, ⟨-, rfl, -⟩ | ⟨-, -, rfl⟩⟩ <;> rfl
  refine ⟨availabilityVote_recordsWellFormed hI.recordsWellFormed h,
    fun w => (hI.proposalVoted w).of_extends he (by rw [hp]), ?_⟩
  rcases availabilityVote_eq h with ⟨-, rfl, -⟩ | ⟨r, hd, ⟨-, rfl, -⟩ | ⟨-, -, rfl⟩⟩
  · exact hI.issuedProposed
  · exact hI.issuedProposed
  · intro d' r' w s' h' hw
    rcases lookup_insert_eq_some.mp h' with ⟨rfl, rfl⟩ | ⟨-, h'⟩
    · exact hI.issuedProposed _ r w s' hd hw
    · exact hI.issuedProposed d' r' w s' h' hw

variable [DecidableEq S] {vote : ValidityVote S}

theorem validityVote_recordsWellFormed (hW : T.RecordsWellFormed ctx)
    (h : validityVote ctx T v d vote = .ok (T', m)) :
  T'.RecordsWellFormed ctx
  := by
  rcases validityVote_eq_ok h with
    ⟨-, rfl, -⟩ | ⟨r, hd, ⟨-, rfl, -⟩ | ⟨hm, ⟨old, -, rfl, -⟩ | ⟨hv, -, rfl⟩⟩⟩
  · exact hW
  · exact hW
  · exact hW
  · intro d' r' h'
    rcases lookup_insert_eq_some.mp h' with ⟨rfl, rfl⟩ | ⟨-, h'⟩
    · exact (hW _ r hd).addValidityVote hv hm vote
    · exact hW d' r' h'

/-- A validity vote keeps implicit votes backed, provided an implicit vote it may record
is already the voter's proposal. -/
theorem validityVote_issuedProposed (hI : T.IssuedProposed)
    (hiss : ∀ s r, vote = .issued s → T.candidateVotes.lookup d = some r →
      r.validityVotes.lookup v = none → T.proposedCandidates.lookup v = some (d, s))
    (h : validityVote ctx T v d vote = .ok (T', m)) :
  T'.IssuedProposed
  := by
  rcases validityVote_eq_ok h with
    ⟨-, rfl, -⟩ | ⟨r, hd, ⟨-, rfl, -⟩ | ⟨-, ⟨old, -, rfl, -⟩ | ⟨hv, -, rfl⟩⟩⟩
  · exact hI
  · exact hI
  · exact hI
  · intro d' r' w s' h' hw
    rcases lookup_insert_eq_some.mp h' with ⟨rfl, rfl⟩ | ⟨-, h'⟩
    · by_cases hwv : w = v
      · subst hwv
        simp only [addValidityVote_validityVotes, AList.lookup_insert, Option.some.injEq] at hw
        exact hiss s' r hw hd hv
      · simp only [addValidityVote_validityVotes, AList.lookup_insert_ne hwv] at hw
        exact hI _ r w s' hd hw
    · exact hI d' r' w s' h' hw

/-- An implicit vote that does not panic leaves a vote of its voter on the record. -/
theorem validityVote_voted {r : CandidateData V C G S}
    (hd : T.candidateVotes.lookup d = some r)
    (h : validityVote ctx T v d (.issued s) = .ok (T', m)) :
  ∃ r', T'.candidateVotes.lookup d = some r' ∧ v ∈ r'.validityVotes
  := by
  rcases validityVote_eq_ok h with
    ⟨hn, -, -⟩ | ⟨r₀, hd₀, ⟨-, -, ⟨_, ⟨⟩, -⟩ | ⟨_, ⟨⟩, -⟩⟩ | ⟨-, ⟨old, hv, rfl, -⟩ | ⟨-, -, rfl⟩⟩⟩
  · simp [hd] at hn
  · exact ⟨r₀, hd₀, AList.lookup_isSome.mp (by simp [hv])⟩
  · exact ⟨r₀.addValidityVote v (.issued s), by simp, by simp [AList.mem_insert]⟩

theorem validityVote_invariant (hI : T.Invariant ctx)
    (hiss : ∀ s r, vote = .issued s → T.candidateVotes.lookup d = some r →
      r.validityVotes.lookup v = none → T.proposedCandidates.lookup v = some (d, s))
    (h : validityVote ctx T v d vote = .ok (T', m)) :
  T'.Invariant ctx
  := ⟨validityVote_recordsWellFormed hI.recordsWellFormed h,
    fun w => (hI.proposalVoted w).of_extends (validityVote_extends h)
      (by rw [validityVote_proposedCandidates h]),
    validityVote_issuedProposed hI.issuedProposed hiss h⟩

omit [DecidableEq S] in
/-- The record a first proposal creates is well formed. -/
theorem proposeCandidate_recordsWellFormed (v : V) (s : S) (hW : T.RecordsWellFormed ctx) :
  (proposeCandidate T v (ctx.candidateGroup c) c (ctx.candidateDigest c) s).RecordsWellFormed ctx
  := by
  intro d' r h'
  rcases (by simpa [lookup_proposeCandidate] using h') with h' | ⟨-, rfl, rfl⟩
  · exact hW d' r h'
  · exact .empty ctx c

/-- A first proposal of a member, with its implicit vote, keeps the invariant. -/
theorem proposeCandidate_invariant (hI : T.Invariant ctx)
    (hv : T.proposedCandidates.lookup v = none)
    (h : validityVote ctx (proposeCandidate T v (ctx.candidateGroup c) c (ctx.candidateDigest c) s)
      v (ctx.candidateDigest c) (.issued s) = .ok (T', m)) :
  T'.Invariant ctx
  := by
  set T₁ := proposeCandidate T v (ctx.candidateGroup c) c (ctx.candidateDigest c) s
  have he := proposeCandidate_extends (c := c) (d := ctx.candidateDigest c) (s := s)
    (ctx.candidateGroup c) hv
  have hW₁ : T₁.RecordsWellFormed ctx :=
    proposeCandidate_recordsWellFormed _ _ hI.recordsWellFormed
  have hI₁ : T₁.IssuedProposed := by
    intro d' r w s' h' hw
    rcases (by simpa [T₁, lookup_proposeCandidate] using h') with h' | ⟨-, -, rfl⟩
    · have hp := hI.issuedProposed d' r w s' h' hw
      have hwv : w ≠ v := by rintro rfl; simp [hv] at hp
      simpa [T₁, AList.lookup_insert_ne hwv] using hp
    · simp [AList.lookup_empty] at hw
  obtain ⟨r₁, hr₁⟩ : ∃ r, T₁.candidateVotes.lookup (ctx.candidateDigest c) = some r := by
    cases hT : T.candidateVotes.lookup (ctx.candidateDigest c) <;>
      simp [T₁, lookup_proposeCandidate, hT]
  refine ⟨validityVote_recordsWellFormed hW₁ h, fun w => ?_,
    validityVote_issuedProposed hI₁ (fun s' r he _ _ => by cases he; simp [T₁]) h⟩
  by_cases hwv : w = v
  · subst hwv
    intro d' s' hp
    rw [validityVote_proposedCandidates h] at hp
    simp only [proposeCandidate_proposedCandidates, AList.lookup_insert, Option.some.injEq,
      Prod.mk.injEq, T₁] at hp
    obtain ⟨rfl, -⟩ := hp
    exact validityVote_voted hr₁ h
  · refine ((hI.proposalVoted w).of_extends he ?_).of_extends (validityVote_extends h) ?_
    · simp [T₁, AList.lookup_insert_ne hwv]
    · rw [validityVote_proposedCandidates h]

theorem importCandidate_invariant (hI : T.Invariant ctx)
    (h : importCandidate ctx T v c s = .ok (T', m)) :
  T'.Invariant ctx
  := by
  rcases importCandidate_eq_ok h with
    ⟨-, rfl, -⟩ | ⟨-, ⟨-, -, -, -, -, -, rfl, -⟩ | ⟨s', hp, h'⟩ | ⟨hv, h'⟩⟩
  · exact hI
  · exact hI
  · refine validityVote_invariant hI (fun _ r _ hr hn => ?_) h'
    obtain ⟨r', hr', hmem⟩ := hI.proposalVoted v _ s' hp
    obtain rfl : r = r' := Option.some.inj (hr.symm.trans hr')
    simp [← AList.lookup_isSome, hn] at hmem
  · exact proposeCandidate_invariant hI hv h'

theorem importStatement_invariant {st : SignedStatement C D S} (hI : T.Invariant ctx)
    (h : importStatement ctx T st = .ok T') :
  T'.Invariant ctx
  := by
  rcases importStatement_eq_ok h with ⟨-, rfl⟩ | ⟨v, T₁, m, -, hd, rfl⟩
  · exact hI
  · have hI₁ : T₁.Invariant ctx := by
      obtain ⟨_ | _ | _ | _, s⟩ := st <;> simp only [dispatch, Except.ok.injEq] at hd
      · exact importCandidate_invariant hI hd
      · exact validityVote_invariant hI (fun _ _ h => by cases h) hd
      · exact availabilityVote_invariant hI hd
      · exact validityVote_invariant hI (fun _ _ h => by cases h) hd
    exact hI₁.of_eq (by simp) (by simp)

/-- Every reachable table satisfies the representation invariant. -/
theorem Reachable.invariant {H : List (SignedStatement C D S)} (hT : Reachable ctx H T) :
  T.Invariant ctx
  := by
  induction hT with
  | create => exact .create
  | importStatement st _ h ih => exact importStatement_invariant ih h
  | drainMisbehavior _ ih => exact ih.of_eq rfl rfl

end Tables

/-! ### The representation invariant of reachable tables -/

/-- The representation invariant holds of every table reachable from `create`: (a) every
proposal points to a stored record holding a vote of the proposer, (b) every record lies
under its candidate's digest and carries its candidate's group, (c) every implicit vote is
its voter's stored proposal, and (d) `indicatedBadBy` lists exactly the invalidity voters,
each once. -/
theorem reachable_table_invariant {ctx : Context V D C G S} [DecidableEq S]
    {H : List (SignedStatement C D S)} {T : Table V D C G S} (hT : Reachable ctx H T) :
  (∀ v d s, T.proposedCandidates.lookup v = some (d, s) →
    ∃ r, T.candidateVotes.lookup d = some r ∧ v ∈ r.validityVotes) ∧
  (∀ d r, T.candidateVotes.lookup d = some r →
    ctx.candidateDigest r.candidate = d ∧ r.groupId = ctx.candidateGroup r.candidate) ∧
  (∀ d r v s, T.candidateVotes.lookup d = some r → r.validityVotes.lookup v = some (.issued s) →
    T.proposedCandidates.lookup v = some (d, s)) ∧
  (∀ d r, T.candidateVotes.lookup d = some r → r.indicatedBadBy.Nodup ∧
    ∀ v, v ∈ r.indicatedBadBy ↔ ∃ s, r.validityVotes.lookup v = some (.invalid s))
  := by
  obtain ⟨hW, hP, hI⟩ := hT.invariant
  exact ⟨fun v => hP v, fun d r h => ⟨(hW d r h).digest_eq, (hW d r h).groupId_eq⟩, hI,
    fun d r h => ⟨(hW d r h).indicatedBadBy_nodup, (hW d r h).mem_indicatedBadBy⟩⟩

/-- Validator 1 proposes the candidate `(2, 100)` of group 2, validator 2 votes it valid and
validator 3 invalid. -/
theorem reachable_table_invariant_votes :
  ∃ T, run (testContext fourValidators) create
      [.importStatement ⟨.candidate (toLex (2, 100)), 1⟩, .importStatement ⟨.valid 100, 2⟩,
        .importStatement ⟨.invalid 100, 3⟩] = .ok T ∧
    (∀ v d s, T.proposedCandidates.lookup v = some (d, s) →
      ∃ r, T.candidateVotes.lookup d = some r ∧ v ∈ r.validityVotes) ∧
    (∀ d r, T.candidateVotes.lookup d = some r →
      (testContext fourValidators).candidateDigest r.candidate = d ∧
        r.groupId = (testContext fourValidators).candidateGroup r.candidate) ∧
    (∀ d r v s, T.candidateVotes.lookup d = some r →
      r.validityVotes.lookup v = some (.issued s) → T.proposedCandidates.lookup v = some (d, s)) ∧
    (∀ d r, T.candidateVotes.lookup d = some r → r.indicatedBadBy.Nodup ∧
      ∀ v, v ∈ r.indicatedBadBy ↔ ∃ s, r.validityVotes.lookup v = some (.invalid s))
  := have h : run (testContext fourValidators) create
        [.importStatement ⟨.candidate (toLex (2, 100)), 1⟩, .importStatement ⟨.valid 100, 2⟩,
          .importStatement ⟨.invalid 100, 3⟩] = .ok _ := rfl
    ⟨_, h, reachable_table_invariant (Reachable.create.after_run h)⟩

/-- The table of the witness above holds the proposal, the three votes and the one
invalidity voter. -/
example :
  (run (testContext fourValidators) create
      [.importStatement ⟨.candidate (toLex (2, 100)), 1⟩, .importStatement ⟨.valid 100, 2⟩,
        .importStatement ⟨.invalid 100, 3⟩]).map
    (fun T => (T.proposedCandidates.lookup 1, (T.candidateVotes.lookup 100).map
      fun r => (r.validityVotes.keys, r.indicatedBadBy))) =
    .ok (some (100, 1), some ([3, 2, 1], [3]))
  := rfl

/-! ### The panic sites -/

section Panics

variable {ctx : Context V D C G S} [DecidableEq S] {T : Table V D C G S} {v : V} {d : D}
  {s : S} {c : C} {e : String}

theorem validityVote_eq_error {vote : ValidityVote S}
    (h : validityVote ctx T v d vote = .error e) :
  e = "implicit issuance vote only cast if the candidate entry already created successfully; qed" ∧
    ∃ r s, T.candidateVotes.lookup d = some r ∧ ctx.isMemberOf v r.groupId = false ∧
      vote = .issued s
  := by
  unfold validityVote at h
  rcases hd : T.candidateVotes.lookup d with _ | r <;> simp only [hd, reduceCtorEq] at h
  cases hm : ctx.isMemberOf v r.groupId <;>
    simp only [hm, Bool.not_false, Bool.not_true, ite_true, Bool.false_eq_true, ite_false] at h
  · cases vote <;> simp only [reduceCtorEq, Except.error.injEq] at h
    exact ⟨h.symm, r, _, rfl, hm, rfl⟩
  · rcases hv : r.validityVotes.lookup v with _ | old <;> simp only [hv, reduceCtorEq] at h
    split_ifs at h

theorem importCandidate_eq_error (h : importCandidate ctx T v c s = .error e) :
  (∃ d' s', T.proposedCandidates.lookup v = some (d', s') ∧ T.candidateVotes.lookup d' = none) ∨
  (∃ s', T.proposedCandidates.lookup v = some (ctx.candidateDigest c, s') ∧
    validityVote ctx T v (ctx.candidateDigest c) (.issued s) = .error e) ∨
  ctx.isMemberOf v (ctx.candidateGroup c) = true ∧ T.proposedCandidates.lookup v = none ∧
    validityVote ctx (proposeCandidate T v (ctx.candidateGroup c) c (ctx.candidateDigest c) s)
      v (ctx.candidateDigest c) (.issued s) = .error e
  := by
  unfold importCandidate at h
  cases hg : ctx.isMemberOf v (ctx.candidateGroup c) <;>
    simp only [hg, Bool.not_false, Bool.not_true, ite_true, Bool.false_eq_true, ite_false,
      reduceCtorEq] at h
  rcases hp : T.proposedCandidates.lookup v with _ | ⟨d', s'⟩ <;> simp only [hp] at h
  · exact .inr (.inr ⟨rfl, rfl, h⟩)
  · by_cases hd : d' = ctx.candidateDigest c
    · subst hd
      simp only [ne_eq, not_true_eq_false, ite_false] at h
      exact .inr (.inl ⟨s', rfl, h⟩)
    · simp only [ne_eq, hd, not_false_eq_true, ite_true] at h
      rcases hr : T.candidateVotes.lookup d' with _ | r <;> simp only [hr, reduceCtorEq] at h
      exact .inl ⟨d', s', rfl, hr⟩

/-- A failed import comes down to a failed implicit vote of a non-member of the record's
group, on the record of its own proposal or on the record of a candidate of its group. -/
theorem importStatement_eq_error {st : SignedStatement C D S} (hI : T.Invariant ctx)
    (h : importStatement ctx T st = .error e) :
  ∃ T₀ v d r s, validityVote ctx T₀ v d (.issued s) = .error e ∧
    T₀.candidateVotes.lookup d = some r ∧ ctx.isMemberOf v r.groupId = false ∧
    ((T₀ = T ∧ ∃ s', T.proposedCandidates.lookup v = some (d, s')) ∨
      ∃ c, d = ctx.candidateDigest c ∧ ctx.isMemberOf v (ctx.candidateGroup c) = true ∧
        (r = ⟨ctx.candidateGroup c, c, ∅, ∅, []⟩ ∨ T.candidateVotes.lookup d = some r))
  := by
  unfold importStatement at h
  rcases hs : ctx.statementSigner st with _ | w <;> simp only [hs, reduceCtorEq] at h
  rcases hd : dispatch ctx T w st with e' | p <;> simp only [hd, reduceCtorEq,
    Except.error.injEq] at h
  subst h
  obtain ⟨_ | _ | _ | _, s⟩ := st <;> simp only [dispatch, reduceCtorEq] at hd
  · rename_i c
    rcases importCandidate_eq_error hd with ⟨d', s', hp, hn⟩ | ⟨s', hp, h'⟩ | ⟨hg, -, h'⟩
    · obtain ⟨r, hr, -⟩ := hI.proposalVoted w d' s' hp
      simp [hr] at hn
    · obtain ⟨-, r, s₀, hr, hm, he⟩ := validityVote_eq_error h'
      obtain rfl : s = s₀ := ValidityVote.issued.inj he
      exact ⟨T, w, _, r, s, h', hr, hm, .inl ⟨rfl, s', hp⟩⟩
    · obtain ⟨-, r, s₀, hr, hm, he⟩ := validityVote_eq_error h'
      obtain rfl : s = s₀ := ValidityVote.issued.inj he
      refine ⟨_, w, _, r, s, h', hr, hm, .inr ⟨c, rfl, hg, ?_⟩⟩
      rcases (by simpa [lookup_proposeCandidate] using hr) with hr | ⟨-, rfl⟩
      · exact .inr hr
      · exact .inl rfl
  · obtain ⟨-, -, -, -, -, -, ⟨⟩⟩ := validityVote_eq_error hd
  · obtain ⟨-, -, -, -, -, -, ⟨⟩⟩ := validityVote_eq_error hd

/-- When candidates with one digest have one group, import succeeds. -/
theorem importStatement_ok (hI : T.Invariant ctx)
    (hdg : ∀ c c', ctx.candidateDigest c = ctx.candidateDigest c' →
      ctx.candidateGroup c = ctx.candidateGroup c')
    (st : SignedStatement C D S) :
  ∃ T', importStatement ctx T st = .ok T'
  := by
  rcases h : importStatement ctx T st with e | T'
  · exfalso
    obtain ⟨T₀, w, d, r, s, -, hr, hm, ⟨rfl, s', hp⟩ | ⟨c, rfl, hg, hr'⟩⟩ :=
      importStatement_eq_error hI h
    · obtain ⟨r', hr', hv⟩ := hI.proposalVoted w d s' hp
      obtain rfl : r = r' := Option.some.inj (hr.symm.trans hr')
      simp [(hI.recordsWellFormed _ r hr).isMemberOf w hv] at hm
    · rcases hr' with rfl | hr'
      · simp [hg] at hm
      · have hw := hI.recordsWellFormed _ r hr'
        rw [hw.groupId_eq, hdg _ _ hw.digest_eq] at hm
        simp [hg] at hm
  · exact ⟨T', rfl⟩

/-- Import never panics at the `expect` of `import_candidate`, and never at all when
candidates with one digest have one group.  `import_statement` can fail only with the
`panic!` of `validity_vote`; that one needs a recorded candidate whose group differs from
the group of a candidate with the same digest. -/
theorem importStatement_panic_free {H : List (SignedStatement C D S)} (hT : Reachable ctx H T)
    (st : SignedStatement C D S) :
  (∀ e, importStatement ctx T st = .error e →
    e = "implicit issuance vote only cast if the candidate entry already created successfully; qed") ∧
  ((∀ c c', ctx.candidateDigest c = ctx.candidateDigest c' →
      ctx.candidateGroup c = ctx.candidateGroup c') →
    ∃ T', importStatement ctx T st = .ok T')
  := by
  refine ⟨fun e h => ?_, fun hdg => importStatement_ok hT.invariant hdg st⟩
  obtain ⟨_, _, _, _, _, h', -⟩ := importStatement_eq_error hT.invariant h
  exact (validityVote_eq_error h').1

/-- Both parts at a member's proposal: under the tests' context, where `(2, 100)` and
`(3, 100)` share a digest, validator 2 of group 3 proposing `(3, 100)` after validator 1
proposed `(2, 100)` can only panic; under the context whose digest is the candidate itself,
validator 2's validity vote on `(2, 100)` is imported. -/
theorem importStatement_panic_free_member :
  (∃ T, run (testContext fourValidators) create [.importStatement ⟨.candidate (toLex (2, 100)), 1⟩]
      = .ok T ∧
    ∀ e, importStatement (testContext fourValidators) T ⟨.candidate (toLex (3, 100)), 4⟩ = .error e →
      e = "implicit issuance vote only cast if the candidate entry already created successfully; qed") ∧
  (∃ T, run (distinctDigestContext fourValidators) create
      [.importStatement ⟨.candidate (toLex (2, 100)), 1⟩] = .ok T ∧
    ∃ T', importStatement (distinctDigestContext fourValidators) T ⟨.valid (toLex (2, 100)), 2⟩
      = .ok T')
  := have h : run (testContext fourValidators) create
        [.importStatement ⟨.candidate (toLex (2, 100)), 1⟩] = .ok _ := rfl
    have h' : run (distinctDigestContext fourValidators) create
        [.importStatement ⟨.candidate (toLex (2, 100)), 1⟩] = .ok _ := rfl
    ⟨⟨_, h, (importStatement_panic_free (Reachable.create.after_run h) _).1⟩,
      ⟨_, h', (importStatement_panic_free (Reachable.create.after_run h') _).2
        fun _ _ hd => congrArg (distinctDigestContext fourValidators).candidateGroup hd⟩⟩

/-- The import of the first part of the witness above does panic. -/
example :
  run (testContext fourValidators) create
      [.importStatement ⟨.candidate (toLex (2, 100)), 1⟩,
        .importStatement ⟨.candidate (toLex (3, 100)), 4⟩]
    = .error "implicit issuance vote only cast if the candidate entry already created successfully; qed"
  := rfl

/-- A run of the repository's tests' context that panics: validators 1 and 2 propose the
candidates `(2, 100)` and `(3, 100)` of groups 2 and 3, which share the digest 100. -/
theorem importStatement_panics_on_shared_digest :
  run (testContext (AList.insert 2 (3, 222) (AList.insert 1 (2, 455) ∅))) create
      [.importStatement ⟨.candidate (toLex (2, 100)), 1⟩,
        .importStatement ⟨.candidate (toLex (3, 100)), 2⟩]
    = .error "implicit issuance vote only cast if the candidate entry already created successfully; qed"
  := rfl

end Panics

/-! ### The first vote wins -/

section FirstVote

variable {ctx : Context V D C G S} [DecidableEq S] {T T' : Table V D C G S}

theorem length_entries_le {α β : Type} [DecidableEq α] {s s' : AList (fun _ : α => β)}
    (h : ∀ a, a ∈ s → a ∈ s') :
  s.entries.length ≤ s'.entries.length
  := by
  have := (List.subperm_of_subset s.keys_nodup fun a ha =>
    AList.mem_keys.mp (h a (AList.mem_keys.mpr ha))).length_le
  simpa [AList.keys, List.keys] using this

theorem step_invariant {a : Action C D S} (hI : T.Invariant ctx) (h : step ctx T a = .ok T') :
  T'.Invariant ctx
  := by
  cases a with
  | importStatement st => exact importStatement_invariant hI h
  | drainMisbehavior =>
    simp only [step, Except.ok.injEq] at h
    exact hI.of_eq (by rw [← h]; rfl) (by rw [← h]; rfl)

/-- The first vote wins and the table only grows: every call on a reachable table keeps
every proposal, every record with its group and candidate, every validity vote with its
value, every availability voter, and extends `indicatedBadBy` at its end.  So, with fixed
thresholds, a record that could be included stops being includable only by gaining the
invalidity vote of a validator that had not voted on it. -/
theorem step_first_vote_wins {H : List (SignedStatement C D S)} (hT : Reachable ctx H T)
    {a : Action C D S} (h : step ctx T a = .ok T') :
  T.Extends T' ∧
  ∀ d r r' validityThreshold availabilityThreshold,
    T.candidateVotes.lookup d = some r → T'.candidateVotes.lookup d = some r' →
    r.canBeIncluded validityThreshold availabilityThreshold = true →
    r'.canBeIncluded validityThreshold availabilityThreshold = false →
    ∃ v s, r'.validityVotes.lookup v = some (.invalid s) ∧ r.validityVotes.lookup v = none
  := by
  have he := step_extends h
  have hI := hT.invariant
  have hI' := step_invariant hI h
  refine ⟨he, fun d r r' vt avt hr hr' hin hout => ?_⟩
  obtain ⟨r₀, hr₀, e⟩ := he.candidateVotes d r hr
  obtain rfl : r₀ = r' := Option.some.inj (hr₀.symm.trans hr')
  have hvv := length_entries_le fun _ => e.mem_validityVotes
  have hav := length_entries_le e.availabilityVotes
  simp only [CandidateData.canBeIncluded, Bool.and_eq_true, List.isEmpty_iff,
    decide_eq_true_eq, Bool.and_eq_false_iff, List.isEmpty_eq_false_iff_exists_mem,
    decide_eq_false_iff_not] at hin hout
  obtain ⟨w, hw⟩ : ∃ w, w ∈ r₀.indicatedBadBy := by
    rcases hout with (hout | hout) | hout <;> first | exact hout | omega
  obtain ⟨s, hs⟩ := ((hI'.recordsWellFormed d r₀ hr').mem_indicatedBadBy w).mp hw
  refine ⟨w, s, hs, ?_⟩
  rcases hrw : r.validityVotes.lookup w with _ | vote
  · rfl
  · have hkeep := e.validityVotes w vote hrw
    rw [hs, Option.some.injEq] at hkeep
    subst hkeep
    have hbad := ((hI.recordsWellFormed d r hr).mem_indicatedBadBy w).mpr ⟨s, hrw⟩
    simp [hin.1.1] at hbad

/-- Validator 3's invalidity vote on the includable record of `(2, 100)`, which validator 1
proposed and validator 2 voted valid under thresholds of one validity vote. -/
theorem step_first_vote_wins_invalid :
  ∃ T T', run (oneVoteContext fourValidators) create
      [.importStatement ⟨.candidate (toLex (2, 100)), 1⟩, .importStatement ⟨.valid 100, 2⟩] = .ok T ∧
    step (oneVoteContext fourValidators) T (.importStatement ⟨.invalid 100, 3⟩) = .ok T' ∧
    T.Extends T' ∧
    ∀ d r r' validityThreshold availabilityThreshold,
      T.candidateVotes.lookup d = some r → T'.candidateVotes.lookup d = some r' →
      r.canBeIncluded validityThreshold availabilityThreshold = true →
      r'.canBeIncluded validityThreshold availabilityThreshold = false →
      ∃ v s, r'.validityVotes.lookup v = some (.invalid s) ∧ r.validityVotes.lookup v = none
  := have h : run (oneVoteContext fourValidators) create
        [.importStatement ⟨.candidate (toLex (2, 100)), 1⟩, .importStatement ⟨.valid 100, 2⟩]
        = .ok _ := rfl
    ⟨_, _, h, rfl,
      step_first_vote_wins (Reachable.create.after_run h) (a := .importStatement ⟨.invalid 100, 3⟩) rfl⟩

/-- In the witness above the record of `(2, 100)` is includable before validator 3's vote and
not after it. -/
example :
  ((run (oneVoteContext fourValidators) create
      [.importStatement ⟨.candidate (toLex (2, 100)), 1⟩, .importStatement ⟨.valid 100, 2⟩,
        .importStatement ⟨.invalid 100, 3⟩]).map fun T =>
      (T.candidateVotes.lookup 100).map (·.canBeIncluded 1 0)) = .ok (some false) ∧
  ((run (oneVoteContext fourValidators) create
      [.importStatement ⟨.candidate (toLex (2, 100)), 1⟩, .importStatement ⟨.valid 100, 2⟩]).map
      fun T => (T.candidateVotes.lookup 100).map (·.canBeIncluded 1 0)) = .ok (some true)
  := ⟨rfl, rfl⟩

end FirstVote

end CandidateAgreement
