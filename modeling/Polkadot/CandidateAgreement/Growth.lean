import Polkadot.CandidateAgreement.Import

/-!
# Growth, rejection and idempotence

`Table.Extends T T'`: whatever `T` stores, `T'` stores too.  Every call on the table
extends it: proposals and records stay, a stored validity vote is never overwritten,
`indicatedBadBy` only grows at its end, and availability voters stay.  A rejected statement
changes no record, and importing the same statement twice is importing it once.
-/

namespace CandidateAgreement

variable {V D C G S : Type} [DecidableEq V] [DecidableEq D]

/-- `r'` extends `r`: the same group and candidate, every validity vote kept with its value,
`indicatedBadBy` a prefix, and every availability voter kept. -/
structure CandidateData.Extends (r r' : CandidateData V C G S) : Prop where
  groupId_eq : r'.groupId = r.groupId
  candidate_eq : r'.candidate = r.candidate
  validityVotes : ∀ v vote, r.validityVotes.lookup v = some vote →
    r'.validityVotes.lookup v = some vote
  indicatedBadBy : r.indicatedBadBy <+: r'.indicatedBadBy
  availabilityVotes : ∀ v, v ∈ r.availabilityVotes → v ∈ r'.availabilityVotes

/-- `T'` extends `T`: every proposal kept with its value, and every record extended. -/
structure Table.Extends (T T' : Table V D C G S) : Prop where
  proposedCandidates : ∀ v p, T.proposedCandidates.lookup v = some p →
    T'.proposedCandidates.lookup v = some p
  candidateVotes : ∀ d r, T.candidateVotes.lookup d = some r →
    ∃ r', T'.candidateVotes.lookup d = some r' ∧ r.Extends r'

namespace CandidateData.Extends

theorem refl (r : CandidateData V C G S) :
  r.Extends r
  := ⟨rfl, rfl, fun _ _ h => h, List.prefix_refl _, fun _ h => h⟩

theorem trans {r₁ r₂ r₃ : CandidateData V C G S} (h₁ : r₁.Extends r₂) (h₂ : r₂.Extends r₃) :
  r₁.Extends r₃
  := ⟨h₂.groupId_eq.trans h₁.groupId_eq, h₂.candidate_eq.trans h₁.candidate_eq,
    fun v vote h => h₂.validityVotes v vote (h₁.validityVotes v vote h),
    h₁.indicatedBadBy.trans h₂.indicatedBadBy,
    fun v h => h₂.availabilityVotes v (h₁.availabilityVotes v h)⟩

/-- Every validity voter of `r` is one of `r'`. -/
theorem mem_validityVotes {r r' : CandidateData V C G S} (h : r.Extends r') {v : V}
    (hv : v ∈ r.validityVotes) :
  v ∈ r'.validityVotes
  := by
  obtain ⟨vote, hvote⟩ := Option.isSome_iff_exists.mp (AList.lookup_isSome.mpr hv)
  exact AList.lookup_isSome.mp (by simp [h.validityVotes v vote hvote])

end CandidateData.Extends

namespace Table.Extends

theorem refl (T : Table V D C G S) :
  T.Extends T
  := ⟨fun _ _ h => h, fun _ r h => ⟨r, h, .refl r⟩⟩

theorem trans {T₁ T₂ T₃ : Table V D C G S} (h₁ : T₁.Extends T₂) (h₂ : T₂.Extends T₃) :
  T₁.Extends T₃
  := by
  refine ⟨fun v p h => h₂.1 v p (h₁.1 v p h), fun d r h => ?_⟩
  obtain ⟨r₂, h₂r, e₁⟩ := h₁.2 d r h
  obtain ⟨r₃, h₃r, e₂⟩ := h₂.2 d r₂ h₂r
  exact ⟨r₃, h₃r, e₁.trans e₂⟩

/-- A table with the same proposals and records extends the original. -/
theorem of_eq {T T' : Table V D C G S} (hp : T'.proposedCandidates = T.proposedCandidates)
    (hc : T'.candidateVotes = T.candidateVotes) :
  T.Extends T'
  := ⟨fun _ _ h => by rwa [hp], fun _ r h => ⟨r, by rwa [hc], .refl r⟩⟩

end Table.Extends

/-- Filling a vacant validity vote extends the record. -/
theorem CandidateData.extends_addValidityVote {r : CandidateData V C G S} {v : V}
    (vote : ValidityVote S) (h : r.validityVotes.lookup v = none) :
  r.Extends (r.addValidityVote v vote)
  := by
  refine ⟨rfl, rfl, fun w vote' hw => ?_, ?_, fun _ h => h⟩
  · have hne : w ≠ v := by
      rintro rfl
      simp_all
    simpa [AList.lookup_insert_ne hne] using hw
  · cases vote <;> simp [CandidateData.addValidityVote]

/-- Replacing a stored record by an extension of it extends the table. -/
theorem Table.extends_insert {T : Table V D C G S} {d : D} {r r' : CandidateData V C G S}
    (hd : T.candidateVotes.lookup d = some r) (hr : r.Extends r') :
  T.Extends { T with candidateVotes := T.candidateVotes.insert d r' }
  := by
  refine ⟨fun _ _ h => h, fun d' r₀ h => ?_⟩
  by_cases hd' : d' = d
  · subst hd'
    obtain rfl : r = r₀ := Option.some.inj (hd.symm.trans h)
    exact ⟨r', by simp, hr⟩
  · exact ⟨r₀, by simpa [AList.lookup_insert_ne hd'] using h, .refl r₀⟩

variable {ctx : Context V D C G S} {T T' : Table V D C G S} {v : V} {d : D} {s : S} {c : C}
  {m : Option (Misbehavior C D S)}

theorem availabilityVote_extends (h : availabilityVote ctx T v d s = (T', m)) :
  T.Extends T'
  := by
  rcases availabilityVote_eq h with ⟨-, rfl, -⟩ | ⟨r, hd, ⟨-, rfl, -⟩ | ⟨-, -, rfl⟩⟩
  · exact .refl _
  · exact .refl _
  · exact Table.extends_insert hd ⟨rfl, rfl, fun _ _ h => h, List.prefix_refl _,
      fun w hw => by simp [AList.mem_insert, hw]⟩

/-- A first proposal extends the table. -/
theorem proposeCandidate_extends (g : G) (hv : T.proposedCandidates.lookup v = none) :
  T.Extends (proposeCandidate T v g c d s)
  := by
  refine ⟨fun w p h => ?_, fun d' r h => ⟨r, by simp [lookup_proposeCandidate, h], .refl r⟩⟩
  have hne : w ≠ v := by
    rintro rfl
    simp_all
  simpa [AList.lookup_insert_ne hne] using h

variable [DecidableEq S] {vote : ValidityVote S}

theorem validityVote_extends (h : validityVote ctx T v d vote = .ok (T', m)) :
  T.Extends T'
  := by
  rcases validityVote_eq_ok h with
    ⟨-, rfl, -⟩ | ⟨r, hd, ⟨-, rfl, -⟩ | ⟨-, ⟨old, -, rfl, -⟩ | ⟨hv, -, rfl⟩⟩⟩
  · exact .refl _
  · exact .refl _
  · exact .refl _
  · exact Table.extends_insert hd (CandidateData.extends_addValidityVote vote hv)

theorem importCandidate_extends (h : importCandidate ctx T v c s = .ok (T', m)) :
  T.Extends T'
  := by
  rcases importCandidate_eq_ok h with
    ⟨-, rfl, -⟩ | ⟨-, ⟨-, -, -, -, -, -, rfl, -⟩ | ⟨-, -, h'⟩ | ⟨hv, h'⟩⟩
  · exact .refl _
  · exact .refl _
  · exact validityVote_extends h'
  · exact (proposeCandidate_extends _ hv).trans (validityVote_extends h')

theorem dispatch_extends {st : SignedStatement C D S} (h : dispatch ctx T v st = .ok (T', m)) :
  T.Extends T'
  := by
  obtain ⟨_ | _ | _ | _, s⟩ := st <;> simp only [dispatch, Except.ok.injEq] at h
  · exact importCandidate_extends h
  · exact validityVote_extends h
  · exact availabilityVote_extends h
  · exact validityVote_extends h

/-- The handlers leave the recorded misbehavior to `import_statement`. -/
theorem dispatch_detectedMisbehavior {st : SignedStatement C D S}
    (h : dispatch ctx T v st = .ok (T', m)) :
  T'.detectedMisbehavior = T.detectedMisbehavior
  := by
  have hv : ∀ {T T' : Table V D C G S} {d : D} {vote : ValidityVote S} {m},
      validityVote ctx T v d vote = .ok (T', m) → T'.detectedMisbehavior = T.detectedMisbehavior :=
    fun h => by
      rcases validityVote_eq_ok h with
        ⟨-, rfl, -⟩ | ⟨r, -, ⟨-, rfl, -⟩ | ⟨-, ⟨old, -, rfl, -⟩ | ⟨-, -, rfl⟩⟩⟩ <;> rfl
  obtain ⟨_ | _ | _ | _, s⟩ := st <;> simp only [dispatch, Except.ok.injEq] at h
  · rcases importCandidate_eq_ok h with
      ⟨-, rfl, -⟩ | ⟨-, ⟨-, -, -, -, -, -, rfl, -⟩ | ⟨-, -, h'⟩ | ⟨-, h'⟩⟩
    · rfl
    · rfl
    · exact hv h'
    · exact (hv h').trans rfl
  · exact hv h
  · rcases availabilityVote_eq h with ⟨-, rfl, -⟩ | ⟨r, -, ⟨-, rfl, -⟩ | ⟨-, -, rfl⟩⟩ <;> rfl
  · exact hv h

/-- Every call on the table extends it. -/
theorem step_extends {a : Action C D S} (h : step ctx T a = .ok T') :
  T.Extends T'
  := by
  cases a with
  | drainMisbehavior =>
    simp only [step, Except.ok.injEq] at h
    exact .of_eq (by rw [← h]; rfl) (by rw [← h]; rfl)
  | importStatement st =>
    rcases importStatement_eq_ok h with ⟨-, rfl⟩ | ⟨v, T₁, m, -, hd, rfl⟩
    · exact .refl _
    · exact (dispatch_extends hd).trans (.of_eq (by simp) (by simp))

/-! ### Rejected statements -/

theorem validityVote_proposedCandidates (h : validityVote ctx T v d vote = .ok (T', m)) :
  T'.proposedCandidates = T.proposedCandidates
  := by
  rcases validityVote_eq_ok h with
    ⟨-, rfl, -⟩ | ⟨r, -, ⟨-, rfl, -⟩ | ⟨-, ⟨old, -, rfl, -⟩ | ⟨-, -, rfl⟩⟩⟩ <;> rfl

/-- A validity vote answered with misbehavior changes nothing. -/
theorem validityVote_eq_self {mis : Misbehavior C D S}
    (h : validityVote ctx T v d vote = .ok (T', some mis)) :
  T' = T
  := by
  rcases validityVote_eq_ok h with
    ⟨-, -, ⟨⟩⟩ | ⟨r, -, ⟨-, rfl, -⟩ | ⟨-, ⟨old, -, rfl, -⟩ | ⟨-, ⟨⟩, -⟩⟩⟩ <;> rfl

/-- A handler that answers with misbehavior changes no record and no misbehavior, and
changes the proposals only by a first proposal whose implicit vote conflicts with the
proposer's earlier direct vote on the same digest. -/
theorem dispatch_misbehavior {st : SignedStatement C D S} {T₁ : Table V D C G S}
    {mis : Misbehavior C D S} (h : dispatch ctx T v st = .ok (T₁, some mis)) :
  T₁.candidateVotes = T.candidateVotes ∧ T₁.detectedMisbehavior = T.detectedMisbehavior ∧
    (T₁.proposedCandidates = T.proposedCandidates ∨
      ∃ c r vote, st.statement = .candidate c ∧ T.proposedCandidates.lookup v = none ∧
        T₁.proposedCandidates
          = T.proposedCandidates.insert v (ctx.candidateDigest c, st.signature) ∧
        T.candidateVotes.lookup (ctx.candidateDigest c) = some r ∧
        r.validityVotes.lookup v = some vote ∧ ∃ s, vote = .valid s ∨ vote = .invalid s)
  := by
  obtain ⟨_ | _ | _ | _, s⟩ := st <;> simp only [dispatch, Except.ok.injEq] at h
  · rcases importCandidate_eq_ok h with
      ⟨-, rfl, -⟩ | ⟨-, ⟨-, -, -, -, -, -, rfl, -⟩ | ⟨-, -, h'⟩ | ⟨hv, h'⟩⟩
    · simp
    · simp
    · simp [validityVote_eq_self h']
    · rename_i c
      rcases validityVote_eq_ok h' with
        ⟨hd, -, -⟩ | ⟨r, hd, ⟨-, -, ⟨_, ⟨⟩, -⟩ | ⟨_, ⟨⟩, -⟩⟩ | ⟨-, ⟨old, hold, rfl, hm⟩ | ⟨-, ⟨⟩, -⟩⟩⟩
      · simp [lookup_proposeCandidate] at hd
      have hr : T.candidateVotes.lookup (ctx.candidateDigest c) = some r := by
        rcases (by simpa [lookup_proposeCandidate] using hd) with hr | ⟨-, rfl⟩
        · exact hr
        · simp at hold
      have hmem : ctx.candidateDigest c ∈ T.candidateVotes :=
        AList.lookup_isSome.mp (by simp [hr])
      refine ⟨by simp [proposeCandidate, hmem], rfl, .inr ⟨c, r, old, rfl, hv, rfl, hr, hold, ?_⟩⟩
      cases old <;> simp_all [doubleVoteProof]
  · obtain rfl := validityVote_eq_self h
    simp
  · rcases availabilityVote_eq h with ⟨-, -, ⟨⟩⟩ | ⟨r, -, ⟨-, rfl, -⟩ | ⟨-, ⟨⟩, -⟩⟩
    simp
  · obtain rfl := validityVote_eq_self h
    simp

/-- Rejected statements leave the table intact.  A statement whose signer cannot be
recovered, or a vote on an unknown digest, changes nothing.  A statement the handler answers
with misbehavior against its signer `v` changes no record, changes `detectedMisbehavior` at
`v` only, and changes the proposals only by a first proposal of `v` whose implicit vote
conflicts with the direct vote `v` cast earlier on its digest. -/
theorem importStatement_rejected (ctx : Context V D C G S) (T : Table V D C G S)
    (st : SignedStatement C D S) :
  (ctx.statementSigner st = none → importStatement ctx T st = .ok T) ∧
  (∀ d, (st.statement = .valid d ∨ st.statement = .invalid d ∨ st.statement = .available d) →
    T.candidateVotes.lookup d = none → importStatement ctx T st = .ok T) ∧
  (∀ v T₁ mis, ctx.statementSigner st = some v → dispatch ctx T v st = .ok (T₁, some mis) →
    ∃ T', importStatement ctx T st = .ok T' ∧ T'.candidateVotes = T.candidateVotes ∧
      T'.detectedMisbehavior = T.detectedMisbehavior.insert v mis ∧
      (T'.proposedCandidates = T.proposedCandidates ∨
        ∃ c r vote, st.statement = .candidate c ∧ T.proposedCandidates.lookup v = none ∧
          T'.proposedCandidates
            = T.proposedCandidates.insert v (ctx.candidateDigest c, st.signature) ∧
          T.candidateVotes.lookup (ctx.candidateDigest c) = some r ∧
          r.validityVotes.lookup v = some vote ∧ ∃ s, vote = .valid s ∨ vote = .invalid s))
  := by
  refine ⟨fun hs => by simp [importStatement, hs], fun d hst hd => ?_, fun v T₁ mis hs h => ?_⟩
  · rcases hs : ctx.statementSigner st with _ | v
    · simp [importStatement, hs]
    · rcases hst with hst | hst | hst <;>
        simp [importStatement, hs, dispatch, hst, validityVote, availabilityVote, hd,
          noteMisbehavior]
  · obtain ⟨hc, hm, hp⟩ := dispatch_misbehavior h
    refine ⟨noteMisbehavior v (T₁, some mis), by simp [importStatement, hs, h], by simpa using hc,
      by simp [noteMisbehavior, hm], ?_⟩
    simpa [noteMisbehavior] using hp

/-! ### Importing a statement twice -/

/-- A validity vote cast again on the table it produced, or on one with the same records,
returns that table and the same misbehavior. -/
theorem validityVote_again {T₂ U : Table V D C G S}
    (h : validityVote ctx T v d vote = .ok (T₂, m)) (hU : U.candidateVotes = T₂.candidateVotes) :
  validityVote ctx U v d vote = .ok (U, m)
  := by
  rcases validityVote_eq_ok h with ⟨hd, rfl, rfl⟩ | ⟨r, hd, ⟨hm, rfl, ⟨s, rfl, rfl⟩ | ⟨s, rfl, rfl⟩⟩ |
      ⟨hm, ⟨old, hv, rfl, rfl⟩ | ⟨hv, rfl, rfl⟩⟩⟩
  · simp [validityVote, hU, hd]
  · simp [validityVote, hU, hd, hm]
  · simp [validityVote, hU, hd, hm]
  · by_cases ho : old = vote <;> simp [validityVote, hU, hd, hm, hv, ho]
  · simp [validityVote, hU, hm]

omit [DecidableEq S] in
theorem availabilityVote_again {T₂ U : Table V D C G S}
    (h : availabilityVote ctx T v d s = (T₂, m)) (hU : U.candidateVotes = T₂.candidateVotes) :
  availabilityVote ctx U v d s = (U, m)
  := by
  rcases availabilityVote_eq h with ⟨hd, rfl, rfl⟩ | ⟨r, hd, ⟨hg, rfl, rfl⟩ | ⟨hg, rfl, rfl⟩⟩
  · simp [availabilityVote, hU, hd]
  · simp [availabilityVote, hU, hd, hg]
  · simp only [availabilityVote, hU, AList.lookup_insert, hg, Bool.not_true, Bool.false_eq_true,
      ite_false, AList.insert_insert, Prod.mk.injEq, and_true]
    dsimp only at hU
    rw [← hU]

theorem importCandidate_again {T₂ U : Table V D C G S}
    (h : importCandidate ctx T v c s = .ok (T₂, m))
    (hp : U.proposedCandidates = T₂.proposedCandidates)
    (hU : U.candidateVotes = T₂.candidateVotes) :
  importCandidate ctx U v c s = .ok (U, m)
  := by
  rcases importCandidate_eq_ok h with ⟨hg, rfl, rfl⟩ |
      ⟨hg, ⟨d', s', r, hv, hd, hr, rfl, rfl⟩ | ⟨s', hv, h'⟩ | ⟨hv, h'⟩⟩
  · simp [importCandidate, hg]
  · simp [importCandidate, hg, hp, hv, hd, hU, hr]
  · rw [validityVote_proposedCandidates h'] at hp
    simp [importCandidate, hg, hp, hv, validityVote_again h' hU]
  · have hp' : U.proposedCandidates.lookup v = some (ctx.candidateDigest c, s) := by
      simp [hp, validityVote_proposedCandidates h']
    simp [importCandidate, hg, hp', validityVote_again h' hU]

omit [DecidableEq D] [DecidableEq S] in
theorem noteMisbehavior_noteMisbehavior (T : Table V D C G S) (m : Option (Misbehavior C D S)) :
  noteMisbehavior v (noteMisbehavior v (T, m), m) = noteMisbehavior v (T, m)
  := by
  cases m <;> simp [noteMisbehavior, AList.insert_insert]

/-- Importing a statement twice in a row is importing it once. -/
theorem importStatement_idempotent {st : SignedStatement C D S} {T₁ : Table V D C G S}
    (h : importStatement ctx T st = .ok T₁) :
  importStatement ctx T₁ st = .ok T₁
  := by
  rcases importStatement_eq_ok h with ⟨hs, rfl⟩ | ⟨v, T₂, m, hs, hd, rfl⟩
  · simp [importStatement, hs]
  · have hp := (noteMisbehavior_proposedCandidates v (T₂, m))
    have hU := (noteMisbehavior_candidateVotes v (T₂, m))
    have again : dispatch ctx (noteMisbehavior v (T₂, m)) v st
        = .ok (noteMisbehavior v (T₂, m), m) := by
      obtain ⟨_ | _ | _ | _, s⟩ := st <;> simp only [dispatch, Except.ok.injEq] at hd ⊢
      · exact importCandidate_again hd hp hU
      · exact validityVote_again hd hU
      · rw [availabilityVote_again hd hU]
      · exact validityVote_again hd hU
    simp [importStatement, hs, again, noteMisbehavior_noteMisbehavior]

/-- In the repository's tests' context, validator 1 proposing the candidate `(2, 100)` twice. -/
theorem importStatement_idempotent_propose :
  importStatement (testContext (AList.insert 1 (2, 455) ∅)) create
      ⟨.candidate (toLex (2, 100)), 1⟩
    = .ok ⟨AList.insert 1 (100, 1) ∅, ∅,
        AList.insert 100 ⟨2, toLex (2, 100), AList.insert 1 (.issued 1) ∅, ∅, []⟩ ∅⟩ ∧
  importStatement (testContext (AList.insert 1 (2, 455) ∅))
      ⟨AList.insert 1 (100, 1) ∅, ∅,
        AList.insert 100 ⟨2, toLex (2, 100), AList.insert 1 (.issued 1) ∅, ∅, []⟩ ∅⟩
      ⟨.candidate (toLex (2, 100)), 1⟩
    = .ok ⟨AList.insert 1 (100, 1) ∅, ∅,
        AList.insert 100 ⟨2, toLex (2, 100), AList.insert 1 (.issued 1) ∅, ∅, []⟩ ∅⟩
  := ⟨rfl, importStatement_idempotent (T := create) rfl⟩

end CandidateAgreement
