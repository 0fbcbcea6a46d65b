import Polkadot.CandidateAgreement.Invariant

/-!
# Evidence

`Table.Backed ctx H T`: every proposal and every vote the table `T` holds is backed by a
statement of the history `H`, signed by the proposer or voter.  With the representation
invariant it says that the votes `can_be_included` counts come from validators who are
authorized for the candidate's group and who signed a matching statement.

`Misbehavior.Sound ctx H T v m`: the proof `m` held against `v` consists of statements of `H`
signed by `v` and shows a violation a verifier can check without the table, beyond the
group of a record for an unauthorized vote.  When digests identify candidates, every proof
the table holds is sound.
-/

namespace CandidateAgreement

variable {V D C G S : Type} [DecidableEq V] [DecidableEq D]

/-- `st` is a statement of the history `H`, and its signer is `v`. -/
def SignedBy (ctx : Context V D C G S) (H : List (SignedStatement C D S)) (v : V)
    (st : SignedStatement C D S) : Prop :=
  st ∈ H ∧ ctx.statementSigner st = some v

/-- The statement of `H` signed by `v` that a validity vote of `v` on `d` stands for. -/
def VoteBacked (ctx : Context V D C G S) (H : List (SignedStatement C D S)) (v : V) (d : D) :
    ValidityVote S → Prop
  | .issued s => ∃ c, SignedBy ctx H v ⟨.candidate c, s⟩ ∧ ctx.candidateDigest c = d
  | .valid s => SignedBy ctx H v ⟨.valid d, s⟩
  | .invalid s => SignedBy ctx H v ⟨.invalid d, s⟩

/-- Every proposal and vote of `T` is backed by a statement of `H`. -/
structure Table.Backed (ctx : Context V D C G S) (H : List (SignedStatement C D S))
    (T : Table V D C G S) : Prop where
  proposal : ∀ v d s, T.proposedCandidates.lookup v = some (d, s) →
    ∃ c, SignedBy ctx H v ⟨.candidate c, s⟩ ∧ ctx.candidateDigest c = d
  validity : ∀ d r v vote, T.candidateVotes.lookup d = some r →
    r.validityVotes.lookup v = some vote → VoteBacked ctx H v d vote
  availability : ∀ d r v s, T.candidateVotes.lookup d = some r →
    r.availabilityVotes.lookup v = some s → SignedBy ctx H v ⟨.available d, s⟩

section Backed

variable {ctx : Context V D C G S} {H H' : List (SignedStatement C D S)}
  {st : SignedStatement C D S} {T T' : Table V D C G S} {v : V} {d : D} {s : S} {c : C}
  {m : Option (Misbehavior C D S)}

omit [DecidableEq V] [DecidableEq D] in
theorem SignedBy.mono (h : SignedBy ctx H v st) (hH : H ⊆ H') :
  SignedBy ctx H' v st
  := ⟨hH h.1, h.2⟩

omit [DecidableEq V] [DecidableEq D] in
theorem VoteBacked.mono {vote : ValidityVote S} (h : VoteBacked ctx H v d vote) (hH : H ⊆ H') :
  VoteBacked ctx H' v d vote
  := by
  cases vote with
  | issued s =>
    obtain ⟨c, hc, hd⟩ := h
    exact ⟨c, hc.mono hH, hd⟩
  | valid s => exact SignedBy.mono h hH
  | invalid s => exact SignedBy.mono h hH

theorem Table.Backed.mono (h : T.Backed ctx H) (hH : H ⊆ H') :
  T.Backed ctx H'
  := ⟨fun v d s hp => (h.proposal v d s hp).imp fun _ hc => ⟨hc.1.mono hH, hc.2⟩,
    fun d r v vote hd hv => (h.validity d r v vote hd hv).mono hH,
    fun d r v s hd hv => (h.availability d r v s hd hv).mono hH⟩

/-- Backing reads only the proposals and the records. -/
theorem Table.Backed.of_eq (h : T.Backed ctx H)
    (hp : T'.proposedCandidates = T.proposedCandidates)
    (hc : T'.candidateVotes = T.candidateVotes) :
  T'.Backed ctx H
  := by
  obtain ⟨h₁, h₂, h₃⟩ := h
  exact ⟨hp ▸ h₁, hc ▸ h₂, hc ▸ h₃⟩

theorem Table.Backed.create :
  (create : Table V D C G S).Backed ctx H
  := ⟨fun _ _ _ h => by simp [CandidateAgreement.create] at h,
    fun _ _ _ _ h => by simp [CandidateAgreement.create] at h,
    fun _ _ _ _ h => by simp [CandidateAgreement.create] at h⟩

theorem availabilityVote_backed (hB : T.Backed ctx H)
    (hst : SignedBy ctx H v ⟨.available d, s⟩) (h : availabilityVote ctx T v d s = (T', m)) :
  T'.Backed ctx H
  := by
  rcases availabilityVote_eq h with ⟨-, rfl, -⟩ | ⟨r, hd, ⟨-, rfl, -⟩ | ⟨-, -, rfl⟩⟩
  · exact hB
  · exact hB
  · refine ⟨hB.proposal, fun d' r' w vote h' hw => ?_, fun d' r' w s' h' hw => ?_⟩
    · rcases lookup_insert_eq_some.mp h' with ⟨rfl, rfl⟩ | ⟨-, h'⟩
      · exact hB.validity _ r w vote hd hw
      · exact hB.validity d' r' w vote h' hw
    · rcases lookup_insert_eq_some.mp h' with ⟨rfl, rfl⟩ | ⟨-, h'⟩
      · by_cases hwv : w = v
        · subst hwv
          simp only [AList.lookup_insert, Option.some.injEq] at hw
          exact hw ▸ hst
        · simp only [AList.lookup_insert_ne hwv] at hw
          exact hB.availability _ r w s' hd hw
      · exact hB.availability d' r' w s' h' hw

theorem proposeCandidate_backed (g : G) (hB : T.Backed ctx H)
    (hst : SignedBy ctx H v ⟨.candidate c, s⟩) :
  (proposeCandidate T v g c (ctx.candidateDigest c) s).Backed ctx H
  := by
  refine ⟨fun w d' s' hp => ?_, fun d' r w vote h' hw => ?_, fun d' r w s' h' hw => ?_⟩
  · by_cases hwv : w = v
    · subst hwv
      simp only [proposeCandidate_proposedCandidates, AList.lookup_insert, Option.some.injEq,
        Prod.mk.injEq] at hp
      obtain ⟨rfl, rfl⟩ := hp
      exact ⟨c, hst, rfl⟩
    · simp only [proposeCandidate_proposedCandidates, AList.lookup_insert_ne hwv] at hp
      exact hB.proposal w d' s' hp
  · rcases (by simpa [lookup_proposeCandidate] using h') with h' | ⟨-, -, rfl⟩
    · exact hB.validity d' r w vote h' hw
    · simp [AList.lookup_empty] at hw
  · rcases (by simpa [lookup_proposeCandidate] using h') with h' | ⟨-, -, rfl⟩
    · exact hB.availability d' r w s' h' hw
    · simp [AList.lookup_empty] at hw

variable [DecidableEq S] {vote : ValidityVote S}

theorem validityVote_backed (hB : T.Backed ctx H) (hst : VoteBacked ctx H v d vote)
    (h : validityVote ctx T v d vote = .ok (T', m)) :
  T'.Backed ctx H
  := by
  rcases validityVote_eq_ok h with
    ⟨-, rfl, -⟩ | ⟨r, hd, ⟨-, rfl, -⟩ | ⟨-, ⟨old, -, rfl, -⟩ | ⟨-, -, rfl⟩⟩⟩
  · exact hB
  · exact hB
  · exact hB
  · refine ⟨hB.proposal, fun d' r' w vote' h' hw => ?_, fun d' r' w s' h' hw => ?_⟩
    · rcases lookup_insert_eq_some.mp h' with ⟨rfl, rfl⟩ | ⟨-, h'⟩
      · by_cases hwv : w = v
        · subst hwv
          simp only [addValidityVote_validityVotes, AList.lookup_insert,
            Option.some.injEq] at hw
          exact hw ▸ hst
        · simp only [addValidityVote_validityVotes, AList.lookup_insert_ne hwv] at hw
          exact hB.validity _ r w vote' hd hw
      · exact hB.validity d' r' w vote' h' hw
    · rcases lookup_insert_eq_some.mp h' with ⟨rfl, rfl⟩ | ⟨-, h'⟩
      · exact hB.availability _ r w s' hd hw
      · exact hB.availability d' r' w s' h' hw

theorem importCandidate_backed (hB : T.Backed ctx H)
    (hst : SignedBy ctx H v ⟨.candidate c, s⟩) (h : importCandidate ctx T v c s = .ok (T', m)) :
  T'.Backed ctx H
  := by
  rcases importCandidate_eq_ok h with
    ⟨-, rfl, -⟩ | ⟨-, ⟨-, -, -, -, -, -, rfl, -⟩ | ⟨-, -, h'⟩ | ⟨-, h'⟩⟩
  · exact hB
  · exact hB
  · exact validityVote_backed hB (show VoteBacked ctx H v _ (.issued s) from ⟨c, hst, rfl⟩) h'
  · exact validityVote_backed (proposeCandidate_backed _ hB hst)
      (show VoteBacked ctx H v _ (.issued s) from ⟨c, hst, rfl⟩) h'

/-- The statement a handler runs on backs what the handler records. -/
theorem dispatch_backed (hB : T.Backed ctx H)
    (hst : SignedBy ctx H v st) (h : dispatch ctx T v st = .ok (T', m)) :
  T'.Backed ctx H
  := by
  obtain ⟨_ | _ | _ | _, s⟩ := st <;> simp only [dispatch, Except.ok.injEq] at h
  · exact importCandidate_backed hB hst h
  · exact validityVote_backed hB (show VoteBacked ctx H v _ (.valid s) from hst) h
  · exact availabilityVote_backed hB hst h
  · exact validityVote_backed hB (show VoteBacked ctx H v _ (.invalid s) from hst) h

theorem importStatement_backed (hB : T.Backed ctx H)
    (h : importStatement ctx T st = .ok T') :
  T'.Backed ctx (H ++ [st])
  := by
  have hB' := hB.mono (List.subset_append_left H [st])
  rcases importStatement_eq_ok h with ⟨-, rfl⟩ | ⟨v, T₁, m, hs, hd, rfl⟩
  · exact hB'
  · exact (dispatch_backed hB' ⟨by simp, hs⟩ hd).of_eq (by simp) (by simp)

/-- Every proposal and vote of a reachable table is backed by the imported statements. -/
theorem Reachable.backed (hT : Reachable ctx H T) :
  T.Backed ctx H
  := by
  induction hT with
  | create => exact .create
  | importStatement st _ h ih => exact importStatement_backed ih h
  | drainMisbehavior _ ih => exact ih.of_eq rfl rfl

/-- Every counted vote is authorized and signed: in a reachable table, each validity vote
of a validator on the record of `d` stands for a statement of the history signed by that
validator (`Valid(d)`, `Invalid(d)`, or a candidate with digest `d` for `Issued`), and comes
from a member of the record's group; each availability vote stands for a signed
`Available(d)` and comes from a guarantor of the group. -/
theorem reachable_votes_signed {r : CandidateData V C G S} (hT : Reachable ctx H T)
    (hd : T.candidateVotes.lookup d = some r) :
  (∀ v s, r.validityVotes.lookup v = some (.valid s) →
    ⟨.valid d, s⟩ ∈ H ∧ ctx.statementSigner ⟨.valid d, s⟩ = some v) ∧
  (∀ v s, r.validityVotes.lookup v = some (.invalid s) →
    ⟨.invalid d, s⟩ ∈ H ∧ ctx.statementSigner ⟨.invalid d, s⟩ = some v) ∧
  (∀ v s, r.validityVotes.lookup v = some (.issued s) →
    ∃ c, ⟨.candidate c, s⟩ ∈ H ∧ ctx.statementSigner ⟨.candidate c, s⟩ = some v ∧
      ctx.candidateDigest c = d) ∧
  (∀ v, v ∈ r.validityVotes → ctx.isMemberOf v r.groupId = true) ∧
  (∀ v s, r.availabilityVotes.lookup v = some s →
    ⟨.available d, s⟩ ∈ H ∧ ctx.statementSigner ⟨.available d, s⟩ = some v ∧
      ctx.isAvailabilityGuarantorOf v r.groupId = true)
  := by
  have hB := hT.backed
  have hW := hT.invariant.recordsWellFormed d r hd
  refine ⟨fun v s hv => hB.validity d r v _ hd hv, fun v s hv => hB.validity d r v _ hd hv,
    fun v s hv => ?_, hW.isMemberOf, fun v s hv => ⟨(hB.availability d r v s hd hv).1,
      (hB.availability d r v s hd hv).2, hW.isAvailabilityGuarantorOf v ?_⟩⟩
  · obtain ⟨c, hc, hdc⟩ := hB.validity d r v _ hd hv
    exact ⟨c, hc.1, hc.2, hdc⟩
  · exact AList.lookup_isSome.mp (by simp [hv])

/-- After validator 1 of group 2 proposes the candidate `(2, 100)`, its implicit vote on
the record is backed by the proposal. -/
theorem reachable_votes_signed_proposal :
  (∀ v s, (AList.insert 1 (.issued 1) ∅ : AList fun _ : ℕ => ValidityVote ℕ).lookup v
      = some (.valid s) →
    ⟨.valid 100, s⟩ ∈ [(⟨.candidate (toLex (2, 100)), 1⟩ : SignedStatement (ℕ ×ₗ ℕ) ℕ ℕ)] ∧
      (testContext (AList.insert 1 (2, 455) ∅)).statementSigner ⟨.valid 100, s⟩ = some v) ∧
  (∀ v s, (AList.insert 1 (.issued 1) ∅ : AList fun _ : ℕ => ValidityVote ℕ).lookup v
      = some (.invalid s) →
    ⟨.invalid 100, s⟩ ∈ [(⟨.candidate (toLex (2, 100)), 1⟩ : SignedStatement (ℕ ×ₗ ℕ) ℕ ℕ)] ∧
      (testContext (AList.insert 1 (2, 455) ∅)).statementSigner ⟨.invalid 100, s⟩ = some v) ∧
  (∀ v s, (AList.insert 1 (.issued 1) ∅ : AList fun _ : ℕ => ValidityVote ℕ).lookup v
      = some (.issued s) →
    ∃ c, ⟨.candidate c, s⟩ ∈ [(⟨.candidate (toLex (2, 100)), 1⟩ : SignedStatement (ℕ ×ₗ ℕ) ℕ ℕ)] ∧
      (testContext (AList.insert 1 (2, 455) ∅)).statementSigner ⟨.candidate c, s⟩ = some v ∧
      (testContext (AList.insert 1 (2, 455) ∅)).candidateDigest c = 100) ∧
  (∀ v, v ∈ (AList.insert 1 (.issued 1) ∅ : AList fun _ : ℕ => ValidityVote ℕ) →
    (testContext (AList.insert 1 (2, 455) ∅)).isMemberOf v 2 = true) ∧
  (∀ v s, (∅ : AList fun _ : ℕ => ℕ).lookup v = some s →
    ⟨.available 100, s⟩ ∈ [(⟨.candidate (toLex (2, 100)), 1⟩ : SignedStatement (ℕ ×ₗ ℕ) ℕ ℕ)] ∧
      (testContext (AList.insert 1 (2, 455) ∅)).statementSigner ⟨.available 100, s⟩ = some v ∧
      (testContext (AList.insert 1 (2, 455) ∅)).isAvailabilityGuarantorOf v 2 = true)
  := reachable_votes_signed (r := ⟨2, toLex (2, 100), AList.insert 1 (.issued 1) ∅, ∅, []⟩)
    (T := ⟨AList.insert 1 (100, 1) ∅, ∅,
      AList.insert 100 ⟨2, toLex (2, 100), AList.insert 1 (.issued 1) ∅, ∅, []⟩ ∅⟩)
    ((Reachable.create : Reachable (testContext (AList.insert 1 (2, 455) ∅)) [] create)
      |>.importStatement ⟨.candidate (toLex (2, 100)), 1⟩ (by rfl)) rfl

end Backed

/-! ### Misbehavior proofs -/

/-- `v` made the statement without the authority to make it. -/
def Unauthorized (ctx : Context V D C G S) (T : Table V D C G S) (v : V) : Statement C D → Prop
  | .candidate c => ctx.isMemberOf v (ctx.candidateGroup c) = false
  | .valid d | .invalid d =>
    ∃ r, T.candidateVotes.lookup d = some r ∧ ctx.isMemberOf v r.groupId = false
  | .available d =>
    ∃ r, T.candidateVotes.lookup d = some r ∧ ctx.isAvailabilityGuarantorOf v r.groupId = false

/-- The proof `m` against `v` is built from statements of `H` signed by `v` and shows a
violation: an unauthorized statement made verbatim, two candidates with distinct digests,
or two votes of different kinds on one digest, where an implicit vote is a candidate of
that digest. -/
def Misbehavior.Sound (ctx : Context V D C G S) (H : List (SignedStatement C D S))
    (T : Table V D C G S) (v : V) : Misbehavior C D S → Prop
  | .unauthorizedStatement ⟨st⟩ => SignedBy ctx H v st ∧ Unauthorized ctx T v st.statement
  | .multipleCandidates ⟨(c₁, s₁), (c₂, s₂)⟩ =>
    SignedBy ctx H v ⟨.candidate c₁, s₁⟩ ∧ SignedBy ctx H v ⟨.candidate c₂, s₂⟩ ∧
      ctx.candidateDigest c₁ ≠ ctx.candidateDigest c₂
  | .validityDoubleVote (.issuedAndValidity (c, s₁) (d, s₂)) =>
    SignedBy ctx H v ⟨.candidate c, s₁⟩ ∧ ctx.candidateDigest c = d ∧
      SignedBy ctx H v ⟨.valid d, s₂⟩
  | .validityDoubleVote (.issuedAndInvalidity (c, s₁) (d, s₂)) =>
    SignedBy ctx H v ⟨.candidate c, s₁⟩ ∧ ctx.candidateDigest c = d ∧
      SignedBy ctx H v ⟨.invalid d, s₂⟩
  | .validityDoubleVote (.validityAndInvalidity d s₁ s₂) =>
    SignedBy ctx H v ⟨.valid d, s₁⟩ ∧ SignedBy ctx H v ⟨.invalid d, s₂⟩

/-- Every misbehavior proof the table holds is sound. -/
def Table.MisbehaviorSound (ctx : Context V D C G S) (H : List (SignedStatement C D S))
    (T : Table V D C G S) : Prop :=
  ∀ v m, T.detectedMisbehavior.lookup v = some m → m.Sound ctx H T v

section Sound

variable {ctx : Context V D C G S} {H H' : List (SignedStatement C D S)}
  {st : SignedStatement C D S} {T T' : Table V D C G S} {v : V} {d : D} {s : S} {c : C}

theorem Unauthorized.mono {a : Statement C D} (h : Unauthorized ctx T v a) (he : T.Extends T') :
  Unauthorized ctx T' v a
  := by
  cases a with
  | candidate c => exact h
  | valid d | invalid d | available d =>
    obtain ⟨r, hr, hm⟩ := h
    obtain ⟨r', hr', e⟩ := he.candidateVotes d r hr
    exact ⟨r', hr', by rw [e.groupId_eq]; exact hm⟩

/-- Soundness survives a longer history and an extended table. -/
theorem Misbehavior.Sound.mono {m : Misbehavior C D S} (h : m.Sound ctx H T v) (hH : H ⊆ H')
    (he : T.Extends T') :
  m.Sound ctx H' T' v
  := by
  rcases m with (⟨⟨c, s₁⟩, ⟨d, s₂⟩⟩ | ⟨⟨c, s₁⟩, ⟨d, s₂⟩⟩ | ⟨d, s₁, s₂⟩) |
      ⟨⟨c₁, s₁⟩, ⟨c₂, s₂⟩⟩ | ⟨st⟩
  · exact ⟨h.1.mono hH, h.2.1, h.2.2.mono hH⟩
  · exact ⟨h.1.mono hH, h.2.1, h.2.2.mono hH⟩
  · exact ⟨h.1.mono hH, h.2.mono hH⟩
  · exact ⟨h.1.mono hH, h.2.1.mono hH, h.2.2⟩
  · exact ⟨h.1.mono hH, h.2.mono he⟩

omit [DecidableEq V] [DecidableEq D] in
/-- With digests identifying candidates, the implicit vote on a record stands for the
record's own candidate. -/
theorem VoteBacked.issued_candidate (hinj : Function.Injective ctx.candidateDigest)
    {r : CandidateData V C G S} (hdig : ctx.candidateDigest r.candidate = d)
    (h : VoteBacked ctx H v d (.issued s)) :
  SignedBy ctx H v ⟨.candidate r.candidate, s⟩
  := by
  obtain ⟨c, hc, hd⟩ := h
  rwa [hinj (hd.trans hdig.symm)] at hc

omit [DecidableEq V] in
/-- A double-vote proof of two backed votes on a record with digests identifying
candidates is sound. -/
theorem doubleVoteProof_sound (hinj : Function.Injective ctx.candidateDigest)
    {r : CandidateData V C G S} {old vote : ValidityVote S} {p : ValidityDoubleVote C D S}
    (hdig : ctx.candidateDigest r.candidate = d) (hold : VoteBacked ctx H v d old)
    (hnew : VoteBacked ctx H v d vote) (hp : doubleVoteProof r.candidate d old vote = some p) :
  (Misbehavior.validityDoubleVote p).Sound ctx H T v
  := by
  cases old <;> cases vote <;> simp only [doubleVoteProof, reduceCtorEq,
    Option.some.injEq] at hp <;> subst hp
  · exact ⟨hold.issued_candidate hinj hdig, hdig, hnew⟩
  · exact ⟨hold.issued_candidate hinj hdig, hdig, hnew⟩
  · exact ⟨hnew.issued_candidate hinj hdig, hdig, hold⟩
  · exact ⟨hold, hnew⟩
  · exact ⟨hnew.issued_candidate hinj hdig, hdig, hold⟩
  · exact ⟨hnew, hold⟩

variable [DecidableEq S]

/-- A misbehavior `validity_vote` returns for a backed vote is sound. -/
theorem validityVote_sound (hinj : Function.Injective ctx.candidateDigest)
    (hW : T.RecordsWellFormed ctx) (hB : T.Backed ctx H) {vote : ValidityVote S}
    {mis : Misbehavior C D S} (hst : VoteBacked ctx H v d vote)
    (hun : ∀ s, (vote = .valid s → SignedBy ctx H v ⟨.valid d, s⟩) ∧
      (vote = .invalid s → SignedBy ctx H v ⟨.invalid d, s⟩))
    (h : validityVote ctx T v d vote = .ok (T', some mis)) :
  mis.Sound ctx H T' v
  := by
  rcases validityVote_eq_ok h with ⟨-, -, ⟨⟩⟩ | ⟨r, hd, ⟨hm, rfl, ⟨s, rfl, hmis⟩ | ⟨s, rfl, hmis⟩⟩ |
      ⟨-, ⟨old, hold, rfl, hmis⟩ | ⟨-, ⟨⟩, -⟩⟩⟩
  · cases hmis
    exact ⟨(hun s).1 rfl, r, hd, hm⟩
  · cases hmis
    exact ⟨(hun s).2 rfl, r, hd, hm⟩
  · split_ifs at hmis
    obtain ⟨p, hp, rfl⟩ := Option.map_eq_some'.mp hmis.symm
    exact doubleVoteProof_sound hinj (hW d r hd).digest_eq (hB.validity d r v old hd hold) hst hp

/-- A misbehavior a handler returns on a statement of the history is sound. -/
theorem dispatch_sound (hinj : Function.Injective ctx.candidateDigest) (hI : T.Invariant ctx)
    (hB : T.Backed ctx H) (hst : SignedBy ctx H v st) {mis : Misbehavior C D S}
    (h : dispatch ctx T v st = .ok (T', some mis)) :
  mis.Sound ctx H T' v
  := by
  obtain ⟨_ | _ | _ | _, s⟩ := st <;> simp only [dispatch, Except.ok.injEq] at h
  · rename_i c
    have hiss : VoteBacked ctx H v (ctx.candidateDigest c) (.issued s) := ⟨c, hst, rfl⟩
    rcases importCandidate_eq_ok h with ⟨hg, rfl, hmis⟩ |
        ⟨-, ⟨d', s', r, hp, hne, hr, rfl, hmis⟩ | ⟨-, -, h'⟩ | ⟨-, h'⟩⟩
    · cases hmis
      exact ⟨hst, hg⟩
    · cases hmis
      obtain ⟨c', hc', hd'⟩ := hB.proposal v d' s' hp
      have hdig := (hI.recordsWellFormed d' r hr).digest_eq
      rw [hinj (hd'.trans hdig.symm)] at hc'
      exact ⟨hc', hst, by rw [hdig]; exact hne⟩
    · exact validityVote_sound hinj hI.recordsWellFormed hB hiss (fun _ => ⟨nofun, nofun⟩) h'
    · exact validityVote_sound hinj (proposeCandidate_recordsWellFormed _ _ hI.recordsWellFormed)
        (proposeCandidate_backed _ hB hst) hiss (fun _ => ⟨nofun, nofun⟩) h'
  · exact validityVote_sound hinj hI.recordsWellFormed hB
      (show VoteBacked ctx H v _ (.valid s) from hst)
      (fun _ => ⟨fun he => by cases he; exact hst, nofun⟩) h
  · rcases availabilityVote_eq h with ⟨-, -, ⟨⟩⟩ | ⟨r, hd, ⟨hg, rfl, hmis⟩ | ⟨-, ⟨⟩, -⟩⟩
    cases hmis
    exact ⟨hst, r, hd, hg⟩
  · exact validityVote_sound hinj hI.recordsWellFormed hB
      (show VoteBacked ctx H v _ (.invalid s) from hst)
      (fun _ => ⟨nofun, fun he => by cases he; exact hst⟩) h

theorem importStatement_misbehaviorSound (hinj : Function.Injective ctx.candidateDigest)
    (hI : T.Invariant ctx) (hB : T.Backed ctx H) (hS : T.MisbehaviorSound ctx H)
    (h : importStatement ctx T st = .ok T') :
  T'.MisbehaviorSound ctx (H ++ [st])
  := by
  have hH := List.subset_append_left H [st]
  rcases importStatement_eq_ok h with ⟨-, rfl⟩ | ⟨v, T₁, m, hs, hd, rfl⟩
  · exact fun w m hm => (hS w m hm).mono hH (.refl _)
  · have he : T₁.Extends (noteMisbehavior v (T₁, m)) := .of_eq (by simp) (by simp)
    have hdm := dispatch_detectedMisbehavior hd
    intro w mw hw
    cases m with
    | none =>
      simp only [noteMisbehavior, hdm] at hw
      exact (hS w mw hw).mono hH (dispatch_extends hd)
    | some mis =>
      by_cases hwv : w = v
      · subst hwv
        simp only [noteMisbehavior, AList.lookup_insert, Option.some.injEq] at hw
        subst hw
        exact (dispatch_sound hinj hI (hB.mono hH) ⟨by simp, hs⟩ hd).mono (fun _ h => h) he
      · simp only [noteMisbehavior, AList.lookup_insert_ne hwv, hdm] at hw
        exact (hS w mw hw).mono hH ((dispatch_extends hd).trans he)

theorem Reachable.misbehaviorSound (hinj : Function.Injective ctx.candidateDigest)
    (hT : Reachable ctx H T) :
  T.MisbehaviorSound ctx H
  := by
  induction hT with
  | create => exact fun _ _ h => by simp [CandidateAgreement.create] at h
  | importStatement st hT h ih =>
    exact importStatement_misbehaviorSound hinj hT.invariant hT.backed ih h
  | drainMisbehavior _ _ => exact fun _ _ h => by simp [CandidateAgreement.drainMisbehavior] at h

/-- Misbehavior evidence is sound: when digests identify candidates, every proof a
reachable table holds against a validator `v` is built from imported statements signed by
`v` and shows a violation. -/
theorem reachable_misbehavior_sound (hinj : Function.Injective ctx.candidateDigest)
    (hT : Reachable ctx H T) {v : V} {m : Misbehavior C D S}
    (hm : T.detectedMisbehavior.lookup v = some m) :
  m.Sound ctx H T v
  := hT.misbehaviorSound hinj v m hm

/-- Validator 1 of group 2 proposes the candidates `(2, 100)` and `(2, 101)` where digests
identify candidates: the proof of two candidates it holds is sound. -/
theorem reachable_misbehavior_sound_multiple :
  (Misbehavior.multipleCandidates ⟨(toLex (2, 100), 1), (toLex (2, 101), 1)⟩).Sound
    (distinctDigestContext (AList.insert 1 (2, 455) ∅))
    [⟨.candidate (toLex (2, 100)), 1⟩, ⟨.candidate (toLex (2, 101)), 1⟩]
    ⟨AList.insert 1 (toLex (2, 100), 1) ∅,
      AList.insert 1 (.multipleCandidates ⟨(toLex (2, 100), 1), (toLex (2, 101), 1)⟩) ∅,
      AList.insert (toLex (2, 100)) ⟨2, toLex (2, 100), AList.insert 1 (.issued 1) ∅, ∅, []⟩ ∅⟩
    1
  := reachable_misbehavior_sound Function.injective_id
    ((Reachable.create : Reachable (distinctDigestContext (AList.insert 1 (2, 455) ∅)) [] create)
      |>.importStatement ⟨.candidate (toLex (2, 100)), 1⟩ (by rfl)
      |>.importStatement ⟨.candidate (toLex (2, 101)), 1⟩ (by rfl)) rfl

end Sound

end CandidateAgreement
