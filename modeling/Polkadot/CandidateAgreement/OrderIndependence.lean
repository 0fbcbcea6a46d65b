import Polkadot.CandidateAgreement.Evidence
import Polkadot.CandidateAgreement.Proposal

/-!
# Order independence

Two validators that import the same statements in two orders agree on the proposal and on
who misbehaved, when the statements do not conflict and each order is well formed.

* `NonConflicting ctx S`: each signer's candidates have one digest, and each signer's
  statements on one digest (a candidate of that digest, `Valid`, `Invalid`) are of one
  kind.
* `WellOrdered ctx σ`: every `Valid(d)`, `Invalid(d)` or `Available(d)` comes after a
  candidate of digest `d` signed by a member of the candidate's group.
* `Summarizes ctx p T`: the table `T` after the statements `p` is described by which
  statements `p` holds, never by their order: which digests have records, who voted on
  each and how, and who misbehaved.  Every import keeps it (`Summarizes.importStatement`).

So the records of the two tables have the same candidates, groups, invalidity voters and
numbers of votes, hence pass the test of `proposed_candidates` alike, and
`proposedCandidates_congr` gives one proposal.
-/

namespace CandidateAgreement

variable {V D C G S : Type}

/-! ### Conflicts and well-formed orders -/

section Statements

variable (ctx : Context V D C G S)

/-- `st` is a statement on the validity of digest `d`: a candidate of digest `d`,
`Valid(d)` or `Invalid(d)`. -/
def VotesOn (d : D) (st : SignedStatement C D S) : Prop :=
  match st.statement with
  | .candidate c => ctx.candidateDigest c = d
  | .valid d' | .invalid d' => d' = d
  | .available _ => False

/-- Two statements of one kind. -/
def Statement.SameKind : Statement C D → Statement C D → Prop
  | .candidate _, .candidate _ | .valid _, .valid _ | .invalid _, .invalid _
  | .available _, .available _ => True
  | _, _ => False

/-- The digest a direct vote is about. -/
def Statement.votedDigest : Statement C D → Option D
  | .candidate _ => none
  | .valid d | .invalid d | .available d => some d

/-- The statements do not conflict: every signer's candidates have one digest, and every
signer's statements on one digest are of one kind. -/
structure NonConflicting (statements : List (SignedStatement C D S)) : Prop where
  oneDigest : ∀ v c c' s s', ⟨.candidate c, s⟩ ∈ statements → ⟨.candidate c', s'⟩ ∈ statements →
    ctx.statementSigner ⟨.candidate c, s⟩ = some v →
    ctx.statementSigner ⟨.candidate c', s'⟩ = some v →
    ctx.candidateDigest c = ctx.candidateDigest c'
  oneKind : ∀ v d st st', st ∈ statements → st' ∈ statements → ctx.statementSigner st = some v →
    ctx.statementSigner st' = some v → VotesOn ctx d st → VotesOn ctx d st' →
    st.statement.SameKind st'.statement

/-- `v` signed the statement `a` in `p`, under some signature. -/
def SignedIn (p : List (SignedStatement C D S)) (v : V) (a : Statement C D) : Prop :=
  ∃ s, ⟨a, s⟩ ∈ p ∧ ctx.statementSigner ⟨a, s⟩ = some v

/-- A member of the group of `c` proposed `c` in `p`. -/
def Proposed (p : List (SignedStatement C D S)) (c : C) : Prop :=
  ∃ v, SignedIn ctx p v (.candidate c) ∧ ctx.isMemberOf v (ctx.candidateGroup c) = true

/-- `v` signed a statement on the validity of digest `d` in `p`. -/
def VotedOn (p : List (SignedStatement C D S)) (v : V) (d : D) : Prop :=
  ∃ st ∈ p, ctx.statementSigner st = some v ∧ VotesOn ctx d st

/-- Every direct vote on a digest comes after a candidate of that digest proposed by a
member of its group. -/
def WellOrdered (σ : List (SignedStatement C D S)) : Prop :=
  ∀ pre st post, σ = pre ++ st :: post → ∀ d, st.statement.votedDigest = some d →
    ∃ c, ctx.candidateDigest c = d ∧ Proposed ctx pre c

/-- `v` made the statement without the authority to make it, the group of a digest being
the group of its candidate. -/
def UnauthorizedBy (v : V) (st : SignedStatement C D S) : Prop :=
  match st.statement with
  | .candidate c => ctx.isMemberOf v (ctx.candidateGroup c) = false
  | .valid d | .invalid d =>
    ∃ c, ctx.candidateDigest c = d ∧ ctx.isMemberOf v (ctx.candidateGroup c) = false
  | .available d =>
    ∃ c, ctx.candidateDigest c = d ∧ ctx.isAvailabilityGuarantorOf v (ctx.candidateGroup c) = false

/-- `v` signed in `p` a statement it has no authority to make. -/
def Misbehaved (p : List (SignedStatement C D S)) (v : V) : Prop :=
  ∃ st ∈ p, ctx.statementSigner st = some v ∧ UnauthorizedBy ctx v st

/-- The digest a statement is about: that of its candidate, or the one it names. -/
def digestOf : Statement C D → D
  | .candidate c => ctx.candidateDigest c
  | .valid d | .invalid d | .available d => d

/-- Importing `st`, signed by `v`, leaves the record `r` under `d` as `p` describes it: if
`v` may vote on the record, it already voted on `d` when `st` is a vote on `d`, and already
signed `Invalid(d)` when `st` is one; if `v` is a guarantor of the record's group, it
already signed `Available(d)` when `st` is one. -/
def Redundant (p : List (SignedStatement C D S)) (v : V) (st : SignedStatement C D S) (d : D)
    (r : CandidateData V C G S) : Prop :=
  (ctx.isMemberOf v r.groupId = true → VotesOn ctx d st → VotedOn ctx p v d) ∧
  (ctx.isMemberOf v r.groupId = true → st.statement = .invalid d →
    SignedIn ctx p v (.invalid d)) ∧
  (ctx.isAvailabilityGuarantorOf v r.groupId = true → st.statement = .available d →
    SignedIn ctx p v (.available d))

variable [DecidableEq V]

/-- The record `r` under `d` is what the statements `p` make of it: its validity voters are
the members of its group who made a statement on `d`, its invalidity voters those who
signed `Invalid(d)`, and its availability voters the guarantors who signed `Available(d)`. -/
structure RecordSummarizes (p : List (SignedStatement C D S)) (d : D)
    (r : CandidateData V C G S) : Prop where
  validityVoters : ∀ v, v ∈ r.validityVotes ↔ ctx.isMemberOf v r.groupId = true ∧ VotedOn ctx p v d
  invalidVoters : ∀ v, (∃ s, r.validityVotes.lookup v = some (.invalid s)) ↔
    ctx.isMemberOf v r.groupId = true ∧ SignedIn ctx p v (.invalid d)
  availabilityVoters : ∀ v, v ∈ r.availabilityVotes ↔
    ctx.isAvailabilityGuarantorOf v r.groupId = true ∧ SignedIn ctx p v (.available d)

variable [DecidableEq D]

/-- The table `T` is what the statements `p` make of a fresh table, described by which
statements `p` holds: a record under each digest of a candidate proposed by a member of its
group, each record as `RecordSummarizes` says, and the validators who made a statement
without the authority to make it as the misbehaving ones. -/
structure Summarizes (p : List (SignedStatement C D S)) (T : Table V D C G S) : Prop where
  records : ∀ d, (∃ r, T.candidateVotes.lookup d = some r) ↔
    ∃ c, ctx.candidateDigest c = d ∧ Proposed ctx p c
  record : ∀ d r, T.candidateVotes.lookup d = some r → RecordSummarizes ctx p d r
  misbehaving : ∀ v, v ∈ T.detectedMisbehavior ↔ Misbehaved ctx p v

end Statements

/-! ### Votes and the statements behind them -/

/-- A vote of the kind of a statement: `issued` for a candidate, `valid` for `Valid`,
`invalid` for `Invalid`. -/
def ValidityVote.OfKind : ValidityVote S → Statement C D → Prop
  | .issued _, .candidate _ | .valid _, .valid _ | .invalid _, .invalid _ => True
  | _, _ => False

theorem ValidityVote.OfKind.sameKind {vote : ValidityVote S} {a b : Statement C D}
    (h : vote.OfKind a) (hab : a.SameKind b) :
  vote.OfKind b
  := by
  cases vote <;> cases a <;> cases b <;> first | exact trivial | exact h.elim | exact hab.elim

/-- No double vote of one kind. -/
theorem doubleVoteProof_of_kind {c : C} {d : D} {old vote : ValidityVote S} {a : Statement C D}
    (hold : old.OfKind a) (hvote : vote.OfKind a) :
  doubleVoteProof c d old vote = none
  := by
  cases old <;> cases vote <;> cases a <;>
    first | rfl | exact hold.elim | exact hvote.elim

section Votes

variable [DecidableEq V] [DecidableEq D] {ctx : Context V D C G S} {p : List (SignedStatement C D S)} {T : Table V D C G S}
  {v : V} {d : D} {c : C} {r : CandidateData V C G S}

omit [DecidableEq V] [DecidableEq D] in
theorem VotesOn.unique {d' : D} {st : SignedStatement C D S} (h : VotesOn ctx d st)
    (h' : VotesOn ctx d' st) :
  d = d'
  := by
  obtain ⟨_ | _ | _ | _, s⟩ := st <;> simp only [VotesOn] at h h' <;> exact h.symm.trans h'

omit [DecidableEq V] [DecidableEq D] in
/-- A vote stands for a statement of its voter on its digest, of the vote's kind. -/
theorem VoteBacked.exists_statement {vote : ValidityVote S} (h : VoteBacked ctx p v d vote) :
  ∃ st ∈ p, ctx.statementSigner st = some v ∧ VotesOn ctx d st ∧ vote.OfKind st.statement
  := by
  cases vote with
  | issued s =>
    obtain ⟨c, ⟨hm, hs⟩, rfl⟩ := h
    exact ⟨_, hm, hs, rfl, trivial⟩
  | valid s => exact ⟨_, h.1, h.2, rfl, trivial⟩
  | invalid s => exact ⟨_, h.1, h.2, rfl, trivial⟩

/-- Without conflicts, a signer's stored vote on a digest is of the kind of any statement it
signs on the digest. -/
theorem Table.Backed.ofKind {st : SignedStatement C D S} {old : ValidityVote S}
    (hB : T.Backed ctx p) (hnc : NonConflicting ctx (p ++ [st])) (hd : T.candidateVotes.lookup d = some r)
    (hv : r.validityVotes.lookup v = some old) (hs : ctx.statementSigner st = some v)
    (hst : VotesOn ctx d st) :
  old.OfKind st.statement
  := by
  obtain ⟨st₀, hm, hs₀, hv₀, hk⟩ := (hB.validity d r v old hd hv).exists_statement
  exact hk.sameKind (hnc.oneKind v d st₀ st (List.mem_append_left _ hm)
    (List.mem_append_right _ (List.mem_singleton_self st)) hs₀ hs hv₀ hst)

/-- With digests identifying candidates, the record of the digest of `c` is the record of
`c`. -/
theorem record_of_digest (hinj : Function.Injective ctx.candidateDigest)
    (hW : T.RecordsWellFormed ctx) (hd : T.candidateVotes.lookup d = some r)
    (hc : ctx.candidateDigest c = d) :
  r.candidate = c ∧ r.groupId = ctx.candidateGroup c
  := by
  have hw := hW d r hd
  obtain rfl : r.candidate = c := hinj (hw.digest_eq.trans hc.symm)
  exact ⟨rfl, hw.groupId_eq⟩

omit [DecidableEq V] [DecidableEq D] in
theorem signedIn_append {st : SignedStatement C D S} {a : Statement C D} :
  SignedIn ctx (p ++ [st]) v a ↔
    SignedIn ctx p v a ∨ st.statement = a ∧ ctx.statementSigner st = some v
  := by
  obtain ⟨a', s⟩ := st
  simp only [SignedIn, List.mem_append, List.mem_singleton, SignedStatement.mk.injEq,
    or_and_right, exists_or, and_assoc, exists_and_left, exists_eq_left]
  exact or_congr_right ⟨fun ⟨h, hs⟩ => ⟨h.symm, h ▸ hs⟩, fun ⟨h, hs⟩ => ⟨h.symm, h ▸ hs⟩⟩

omit [DecidableEq V] [DecidableEq D] in
theorem proposed_append {st : SignedStatement C D S} :
  Proposed ctx (p ++ [st]) c ↔ Proposed ctx p c ∨
    ∃ v, st.statement = .candidate c ∧ ctx.statementSigner st = some v ∧
      ctx.isMemberOf v (ctx.candidateGroup c) = true
  := by
  simp only [Proposed, signedIn_append, or_and_right, exists_or, and_assoc]

omit [DecidableEq V] [DecidableEq D] in
theorem votedOn_append {st : SignedStatement C D S} :
  VotedOn ctx (p ++ [st]) v d ↔
    VotedOn ctx p v d ∨ ctx.statementSigner st = some v ∧ VotesOn ctx d st
  := by
  simp [VotedOn, or_and_right, exists_or]

omit [DecidableEq V] [DecidableEq D] in
theorem misbehaved_append {st : SignedStatement C D S} :
  Misbehaved ctx (p ++ [st]) v ↔
    Misbehaved ctx p v ∨ ctx.statementSigner st = some v ∧ UnauthorizedBy ctx v st
  := by
  simp [Misbehaved, or_and_right, exists_or]

omit [DecidableEq V] [DecidableEq D] in
theorem misbehaved_append_of_authorized {st : SignedStatement C D S} {w : V}
    (hs : ctx.statementSigner st = some v) (hu : ¬UnauthorizedBy ctx v st) :
  Misbehaved ctx (p ++ [st]) w ↔ Misbehaved ctx p w
  := by
  rw [misbehaved_append, hs, Option.some.injEq]
  exact or_iff_left_of_imp (by rintro ⟨rfl, h⟩; exact (hu h).elim)

omit [DecidableEq V] [DecidableEq D] in
/-- A direct vote proposes nothing. -/
theorem proposed_append_of_votedDigest {st : SignedStatement C D S}
    (h : st.statement.votedDigest = some d) :
  Proposed ctx (p ++ [st]) c ↔ Proposed ctx p c
  := proposed_append.trans (or_iff_left_of_imp fun ⟨_, hc, _⟩ => by rw [hc] at h; cases h)

omit [DecidableEq V] [DecidableEq D] in
theorem Proposed.mono {q : List (SignedStatement C D S)} (h : Proposed ctx p c) (hpq : p ⊆ q) :
  Proposed ctx q c
  := let ⟨v, ⟨s, hm, hs⟩, hg⟩ := h; ⟨v, ⟨s, hpq hm, hs⟩, hg⟩

omit [DecidableEq V] [DecidableEq D] in
theorem VotesOn.digestOf {st : SignedStatement C D S} (h : VotesOn ctx d st) :
  digestOf ctx st.statement = d
  := by
  obtain ⟨_ | _ | _ | _, s⟩ := st <;> simp only [VotesOn] at h <;> exact h

omit [DecidableEq V] [DecidableEq D] in
theorem VotesOn.ne_available {d' : D} {st : SignedStatement C D S} (h : VotesOn ctx d st) :
  st.statement ≠ .available d'
  := fun ha => by simp [VotesOn, ha] at h

omit [DecidableEq V] [DecidableEq D] in
theorem votesOn_of_eq_invalid {st : SignedStatement C D S} (h : st.statement = .invalid d) :
  VotesOn ctx d st
  := by
  simp [VotesOn, h]

omit [DecidableEq V] [DecidableEq D] in
/-- A vote of the kind of a statement on `d` is an invalidity vote exactly when the statement
is `Invalid(d)`. -/
theorem ValidityVote.OfKind.invalid_iff {vote : ValidityVote S} {st : SignedStatement C D S}
    (hk : vote.OfKind st.statement) (hst : VotesOn ctx d st) :
  (∃ s, vote = .invalid s) ↔ st.statement = .invalid d
  := by
  obtain ⟨_ | _ | _ | _, s⟩ := st <;> cases vote <;>
    simp_all [ValidityVote.OfKind, VotesOn]

/-- Against the record of its digest, a vote on validity is unauthorized exactly when its
signer is not a member of the record's group. -/
theorem unauthorizedBy_iff_of_votesOn (hinj : Function.Injective ctx.candidateDigest)
    {st : SignedStatement C D S} (hW : T.RecordsWellFormed ctx)
    (hd : T.candidateVotes.lookup d = some r) (hst : VotesOn ctx d st) :
  UnauthorizedBy ctx v st ↔ ctx.isMemberOf v r.groupId = false
  := by
  have hw := hW d r hd
  obtain ⟨_ | d' | _ | d', s⟩ := st
  · rw [(record_of_digest hinj hW hd hst).2]
    rfl
  all_goals first
    | exact hst.elim
    | obtain rfl : d' = d := hst
      exact ⟨fun ⟨c, hc, hm⟩ => (record_of_digest hinj hW hd hc).2 ▸ hm,
        fun hm => ⟨r.candidate, hw.digest_eq, hw.groupId_eq ▸ hm⟩⟩

/-- Against the record of its digest, `Available` is unauthorized exactly when its signer is
not a guarantor of the record's group. -/
theorem unauthorizedBy_iff_of_available (hinj : Function.Injective ctx.candidateDigest)
    {st : SignedStatement C D S} (hW : T.RecordsWellFormed ctx)
    (hd : T.candidateVotes.lookup d = some r) (hst : st.statement = .available d) :
  UnauthorizedBy ctx v st ↔ ctx.isAvailabilityGuarantorOf v r.groupId = false
  := by
  have hw := hW d r hd
  obtain ⟨a, s⟩ := st
  obtain rfl := hst
  exact ⟨fun ⟨c, hc, hg⟩ => (record_of_digest hinj hW hd hc).2 ▸ hg,
    fun hg => ⟨r.candidate, hw.digest_eq, hw.groupId_eq ▸ hg⟩⟩

end Votes

/-! ### One record -/

section Records

variable [DecidableEq V] {ctx : Context V D C G S}
  {p : List (SignedStatement C D S)} {T : Table V D C G S} {st : SignedStatement C D S}
  {v : V} {d : D} {r : CandidateData V C G S}

omit [DecidableEq V] in
/-- A statement about another digest leaves a record alone. -/
theorem Redundant.of_ne (hne : digestOf ctx st.statement ≠ d) :
  Redundant ctx p v st d r
  := ⟨fun _ h => (hne h.digestOf).elim, fun _ h => (hne (by rw [h]; rfl)).elim,
    fun _ h => (hne (by rw [h]; rfl)).elim⟩

/-- A statement its signer has no authority to make leaves every record alone. -/
theorem Redundant.of_unauthorized [DecidableEq D] (hinj : Function.Injective ctx.candidateDigest)
    (hW : T.RecordsWellFormed ctx) (hd : T.candidateVotes.lookup d = some r)
    (hu : UnauthorizedBy ctx v st) :
  Redundant ctx p v st d r
  := ⟨fun hm hv => by simp [(unauthorizedBy_iff_of_votesOn hinj hW hd hv).mp hu] at hm,
    fun hm hi => by
      simp [(unauthorizedBy_iff_of_votesOn hinj hW hd (votesOn_of_eq_invalid hi)).mp hu] at hm,
    fun hg ha => by simp [(unauthorizedBy_iff_of_available hinj hW hd ha).mp hu] at hg⟩

/-- A stored vote of `v`, of the kind of `st`, makes `st` redundant. -/
theorem Redundant.of_vote {old : ValidityVote S} (h : RecordSummarizes ctx p d r)
    (hv : r.validityVotes.lookup v = some old) (hk : old.OfKind st.statement)
    (hst : VotesOn ctx d st) :
  Redundant ctx p v st d r
  := by
  refine ⟨fun _ _ => ((h.validityVoters v).mp (AList.lookup_isSome.mp (by simp [hv]))).2,
    fun _ hi => ?_, fun _ ha => (hst.ne_available ha).elim⟩
  rw [hi] at hk
  obtain _ | _ | s := old
  · exact hk.elim
  · exact hk.elim
  · exact ((h.invalidVoters v).mp ⟨s, hv⟩).2

/-- A redundant statement leaves a record as the statements describe it. -/
theorem RecordSummarizes.append_redundant (h : RecordSummarizes ctx p d r)
    (hs : ctx.statementSigner st = some v) (hr : Redundant ctx p v st d r) :
  RecordSummarizes ctx (p ++ [st]) d r
  := by
  obtain ⟨h₁, h₂, h₃⟩ := hr
  refine ⟨fun w => ?_, fun w => ?_, fun w => ?_⟩ <;>
    simp only [h.validityVoters, h.invalidVoters, h.availabilityVoters, votedOn_append,
      signedIn_append, hs, Option.some.injEq]
  · exact and_congr_right fun hm => (or_iff_left_of_imp (by rintro ⟨rfl, hd⟩; exact h₁ hm hd)).symm
  · exact and_congr_right fun hm => (or_iff_left_of_imp (by rintro ⟨hi, rfl⟩; exact h₂ hm hi)).symm
  · exact and_congr_right fun hg => (or_iff_left_of_imp (by rintro ⟨ha, rfl⟩; exact h₃ hg ha)).symm

omit [DecidableEq V] in
/-- The voters of a record after a new voter `v` who qualifies. -/
theorem insert_voter_iff {w : V} {P Q : Prop} (hv : w = v → P) :
  (w = v ∨ P ∧ Q) ↔ P ∧ (Q ∨ v = w)
  := by
  constructor <;> aesop

/-- The first vote of a member on a record, cast by its statement on the record's digest. -/
theorem RecordSummarizes.addValidityVote {vote : ValidityVote S} (h : RecordSummarizes ctx p d r)
    (hs : ctx.statementSigner st = some v) (hm : ctx.isMemberOf v r.groupId = true)
    (hst : VotesOn ctx d st) (hk : vote.OfKind st.statement)
    (hnone : r.validityVotes.lookup v = none) :
  RecordSummarizes ctx (p ++ [st]) d (r.addValidityVote v vote)
  := by
  refine ⟨fun w => ?_, fun w => ?_, fun w => ?_⟩
  · simp only [addValidityVote_validityVotes, addValidityVote_groupId, AList.mem_insert,
      h.validityVoters, votedOn_append, hs, Option.some.injEq, hst, and_true]
    exact insert_voter_iff fun h => h ▸ hm
  · by_cases hw : w = v
    · subst hw
      have hno : ¬SignedIn ctx p w (.invalid d) := fun hi => by
        simpa [hnone] using (h.invalidVoters w).mpr ⟨hm, hi⟩
      simp only [addValidityVote_validityVotes, addValidityVote_groupId, AList.lookup_insert,
        Option.some.injEq, signedIn_append, hs, hm, hno, true_and, false_or, and_true]
      exact hk.invalid_iff hst
    · simp only [addValidityVote_validityVotes, addValidityVote_groupId,
        AList.lookup_insert_ne hw, h.invalidVoters, signedIn_append, hs, Option.some.injEq,
        Ne.symm hw, and_false, or_false]
  · simp only [addValidityVote_availabilityVotes, addValidityVote_groupId, h.availabilityVoters,
      signedIn_append, hst.ne_available, false_and, or_false]

/-- An availability vote of a guarantor of the record's group. -/
theorem RecordSummarizes.addAvailabilityVote {s : S} (h : RecordSummarizes ctx p d r)
    (hs : ctx.statementSigner st = some v)
    (hg : ctx.isAvailabilityGuarantorOf v r.groupId = true) (hst : st.statement = .available d) :
  RecordSummarizes ctx (p ++ [st]) d { r with availabilityVotes := r.availabilityVotes.insert v s }
  := by
  have hv : ∀ {d'}, ¬VotesOn ctx d' st := fun h' => h'.ne_available hst
  refine ⟨fun w => ?_, fun w => ?_, fun w => ?_⟩
  · simp only [h.validityVoters, votedOn_append, hv, and_false, or_false]
  · simp only [h.invalidVoters, signedIn_append, hst, reduceCtorEq, false_and, or_false]
  · simp only [AList.mem_insert, h.availabilityVoters, signedIn_append, hs, hst,
      Option.some.injEq, true_and]
    exact insert_voter_iff fun h => h ▸ hg

omit [DecidableEq V] in
/-- In a well-ordered list, a direct vote on `d` comes after a proposal of a candidate of
digest `d`. -/
theorem WellOrdered.proposed (hwo : WellOrdered ctx p) (hm : st ∈ p)
    (hd : st.statement.votedDigest = some d) :
  ∃ c, ctx.candidateDigest c = d ∧ Proposed ctx p c
  := by
  obtain ⟨pre, post, rfl⟩ := List.append_of_mem hm
  obtain ⟨c, hc, hp⟩ := hwo pre st post rfl d hd
  exact ⟨c, hc, hp.mono (List.subset_append_left _ _)⟩

omit [DecidableEq V] in
/-- In a well-ordered list, a member of the group of `c` made a statement on its digest only
after a candidate of that digest was proposed. -/
theorem VotedOn.proposed (hinj : Function.Injective ctx.candidateDigest)
    (hwo : WellOrdered ctx p) {c : C} (hv : VotedOn ctx p v (ctx.candidateDigest c))
    (hm : ctx.isMemberOf v (ctx.candidateGroup c) = true) :
  ∃ c', ctx.candidateDigest c' = ctx.candidateDigest c ∧ Proposed ctx p c'
  := by
  obtain ⟨⟨a, s⟩, hmem, hs, hvo⟩ := hv
  cases a with
  | candidate c' =>
    obtain rfl := hinj hvo
    exact ⟨c', rfl, v, ⟨s, hmem, hs⟩, hm⟩
  | valid d => exact hwo.proposed hmem (congrArg some hvo)
  | invalid d => exact hwo.proposed hmem (congrArg some hvo)
  | available d => exact hvo.elim

/-- The fresh record of a candidate whose digest no member proposed: in a well-ordered list
no one voted on it yet. -/
theorem RecordSummarizes.empty (hinj : Function.Injective ctx.candidateDigest)
    (hwo : WellOrdered ctx p) (c : C)
    (hnp : ∀ c', ctx.candidateDigest c' = ctx.candidateDigest c → ¬Proposed ctx p c') :
  RecordSummarizes ctx p (ctx.candidateDigest c) ⟨ctx.candidateGroup c, c, ∅, ∅, []⟩
  := by
  have hno : ∀ w, ctx.isMemberOf w (ctx.candidateGroup c) = true →
      ¬VotedOn ctx p w (ctx.candidateDigest c) := fun w hm hv =>
    let ⟨c', hc', hp⟩ := hv.proposed hinj hwo hm
    hnp c' hc' hp
  refine ⟨fun w => ?_, fun w => ?_, fun w => ?_⟩
  · simpa using hno w
  · simpa using fun hm ⟨s, hi, hs⟩ => hno w hm ⟨_, hi, hs, rfl⟩
  · simp only [AList.not_mem_empty, false_iff, not_and]
    rintro - ⟨s, ha, -⟩
    obtain ⟨c', hc', hp⟩ := hwo.proposed ha rfl
    exact hnp c' hc' hp

omit [DecidableEq V] in
theorem WellOrdered.of_append {q : List (SignedStatement C D S)} (h : WellOrdered ctx (p ++ q)) :
  WellOrdered ctx p
  := fun pre st post hp d hd => h pre st (post ++ q) (by simp [hp]) d hd

omit [DecidableEq V] in
theorem NonConflicting.mono {l l' : List (SignedStatement C D S)} (h : NonConflicting ctx l')
    (hl : l ⊆ l') :
  NonConflicting ctx l
  := ⟨fun v c c' s s' h₁ h₂ => h.oneDigest v c c' s s' (hl h₁) (hl h₂),
    fun v d st st' h₁ h₂ => h.oneKind v d st st' (hl h₁) (hl h₂)⟩

omit [DecidableEq V] in
theorem Statement.SameKind.refl (a : Statement C D) :
  a.SameKind a
  := by
  cases a <;> trivial

omit [DecidableEq V] in
/-- Statements of distinct signers do not conflict. -/
theorem NonConflicting.of_nodup {l : List (SignedStatement C D S)}
    (h : (l.map ctx.statementSigner).Nodup) :
  NonConflicting ctx l
  := ⟨fun _ _ _ _ _ h₁ h₂ hs₁ hs₂ => by
      cases List.inj_on_of_nodup_map h h₁ h₂ (hs₁.trans hs₂.symm)
      rfl,
    fun _ _ _ _ h₁ h₂ hs₁ hs₂ _ _ => by
      cases List.inj_on_of_nodup_map h h₁ h₂ (hs₁.trans hs₂.symm)
      exact .refl _⟩

omit [DecidableEq V] in
theorem WellOrdered.nil :
  WellOrdered ctx ([] : List (SignedStatement C D S))
  := fun _ _ _ h => by simp at h

omit [DecidableEq V] in
/-- A statement after a well-ordered list keeps it well ordered if it is no direct vote, or
comes after a proposal of its digest. -/
theorem WellOrdered.append_singleton (h : WellOrdered ctx p)
    (hst : ∀ d, st.statement.votedDigest = some d →
      ∃ c, ctx.candidateDigest c = d ∧ Proposed ctx p c) :
  WellOrdered ctx (p ++ [st])
  := by
  intro pre x post hp
  rcases List.eq_nil_or_concat post with rfl | ⟨post', y, rfl⟩
  · obtain ⟨rfl, hx⟩ := List.append_inj' hp rfl
    obtain rfl := List.singleton_inj.mp hx
    exact hst
  · rw [List.concat_eq_append, ← List.cons_append, ← List.append_assoc] at hp
    exact h pre x post' (List.append_inj' hp rfl).1

end Records

/-! ### Statements that leave the records alone -/

section Summaries

variable [DecidableEq V] [DecidableEq D] {ctx : Context V D C G S}
  {p : List (SignedStatement C D S)} {T : Table V D C G S} {st : SignedStatement C D S}
  {v : V} {d : D} {r : CandidateData V C G S}

theorem Summarizes.create :
  Summarizes ctx [] (create : Table V D C G S)
  := ⟨fun d => by simp [CandidateAgreement.create, Proposed, SignedIn],
    fun _ _ h => by simp [CandidateAgreement.create] at h,
    fun _ => by simp [CandidateAgreement.create, Misbehaved]⟩

/-- A statement without a signer changes nothing. -/
theorem Summarizes.append_unsigned (hS : Summarizes ctx p T)
    (hs : ctx.statementSigner st = none) :
  Summarizes ctx (p ++ [st]) T
  := by
  refine ⟨fun d => ?_, fun d r hd => ⟨fun w => ?_, fun w => ?_, fun w => ?_⟩, fun w => ?_⟩
  · simp [hS.records, proposed_append, hs]
  · simp [(hS.record d r hd).validityVoters, votedOn_append, hs]
  · simp [(hS.record d r hd).invalidVoters, signedIn_append, hs]
  · simp [(hS.record d r hd).availabilityVoters, signedIn_append, hs]
  · simp [hS.misbehaving, misbehaved_append, hs]

/-- A statement its signer has no authority to make changes only the misbehavior noted. -/
theorem Summarizes.append_unauthorized (hinj : Function.Injective ctx.candidateDigest)
    (hW : T.RecordsWellFormed ctx) (hS : Summarizes ctx p T)
    (hs : ctx.statementSigner st = some v) (hu : UnauthorizedBy ctx v st)
    (m : Misbehavior C D S) :
  Summarizes ctx (p ++ [st]) (noteMisbehavior v (T, some m))
  := by
  have hprop : ∀ c, Proposed ctx (p ++ [st]) c ↔ Proposed ctx p c := fun c => by
    refine proposed_append.trans (or_iff_left_of_imp ?_)
    rintro ⟨w, hc, hw, hm⟩
    obtain rfl := Option.some.inj (hs.symm.trans hw)
    obtain ⟨a, s⟩ := st
    obtain rfl : a = .candidate c := hc
    simp [UnauthorizedBy, hm] at hu
  refine ⟨fun d => ?_, fun d r hd => (hS.record d r hd).append_redundant hs
    (.of_unauthorized hinj hW hd hu), fun w => ?_⟩
  · simp only [noteMisbehavior, hS.records, hprop]
  · simp only [noteMisbehavior, AList.mem_insert, hS.misbehaving, misbehaved_append, hs,
      Option.some.injEq]
    exact or_comm.trans (or_congr_right ⟨fun h => ⟨h.symm, h ▸ hu⟩, fun h => h.1.symm⟩)

/-- A statement its signer may make, that proposes nothing new and is redundant for the
record of its digest, leaves the table as the statements describe it. -/
theorem Summarizes.redundant (hS : Summarizes ctx p T) (hs : ctx.statementSigner st = some v)
    (hu : ¬UnauthorizedBy ctx v st) (hprop : ∀ c, Proposed ctx (p ++ [st]) c → Proposed ctx p c)
    (hd : T.candidateVotes.lookup (digestOf ctx st.statement) = some r)
    (hr : Redundant ctx p v st (digestOf ctx st.statement) r) :
  Summarizes ctx (p ++ [st]) T
  := by
  refine ⟨fun d => ?_, fun d r' hd' => (hS.record d r' hd').append_redundant hs ?_,
    fun w => (hS.misbehaving w).trans (misbehaved_append_of_authorized hs hu).symm⟩
  · rw [hS.records]
    exact exists_congr fun c => and_congr_right fun _ =>
      ⟨fun h => proposed_append.mpr (.inl h), hprop c⟩
  · by_cases hdd : digestOf ctx st.statement = d
    · subst hdd
      obtain rfl := Option.some.inj (hd.symm.trans hd')
      exact hr
    · exact .of_ne hdd

theorem lookup_insert_ite {α β : Type} [DecidableEq α] (s : AList (fun _ : α => β)) (a a' : α)
    (b : β) :
  (s.insert a b).lookup a' = if a' = a then some b else s.lookup a'
  := by
  split_ifs with h
  · subst h
    exact AList.lookup_insert s
  · exact AList.lookup_insert_ne h

/-- A statement its signer may make, that changes only the record of its digest, into one the
statements describe. -/
theorem Summarizes.insert {T' : Table V D C G S} {r' : CandidateData V C G S}
    (hS : Summarizes ctx p T) (hs : ctx.statementSigner st = some v)
    (hu : ¬UnauthorizedBy ctx v st)
    (hcv : ∀ d, T'.candidateVotes.lookup d =
      if d = digestOf ctx st.statement then some r' else T.candidateVotes.lookup d)
    (hmis : T'.detectedMisbehavior = T.detectedMisbehavior)
    (hrec : ∃ c, ctx.candidateDigest c = digestOf ctx st.statement ∧ Proposed ctx (p ++ [st]) c)
    (hprop : ∀ c, Proposed ctx (p ++ [st]) c →
      Proposed ctx p c ∨ ctx.candidateDigest c = digestOf ctx st.statement)
    (hr' : RecordSummarizes ctx (p ++ [st]) (digestOf ctx st.statement) r') :
  Summarizes ctx (p ++ [st]) T'
  := by
  refine ⟨fun d => ?_, fun d r hd => ?_, fun w => ?_⟩
  · rw [hcv]
    split_ifs with hd
    · subst hd
      simpa using hrec
    · rw [hS.records]
      exact exists_congr fun c => and_congr_right fun hc =>
        ⟨fun h => proposed_append.mpr (.inl h),
          fun h => (hprop c h).resolve_right fun h' => hd (hc.symm.trans h')⟩
  · rw [hcv] at hd
    split_ifs at hd with hdd
    · subst hdd
      obtain rfl := Option.some.inj hd
      exact hr'
    · exact (hS.record d r hd).append_redundant hs (.of_ne (Ne.symm hdd))
  · rw [hmis, hS.misbehaving, misbehaved_append_of_authorized hs hu]

end Summaries

/-! ### Every import keeps the description -/

section Steps

variable [DecidableEq V] [DecidableEq D] [DecidableEq S] {ctx : Context V D C G S}
  {p : List (SignedStatement C D S)} {T T₁ : Table V D C G S} {st : SignedStatement C D S}
  {v : V} {d : D} {m : Option (Misbehavior C D S)}

/-- A direct vote `Valid(d)` or `Invalid(d)` of `v` on a digest a member proposed. -/
theorem Summarizes.validityVote {vote : ValidityVote S}
    (hinj : Function.Injective ctx.candidateDigest) (hT : Reachable ctx p T)
    (hS : Summarizes ctx p T) (hnc : NonConflicting ctx (p ++ [st]))
    (hs : ctx.statementSigner st = some v) (hst : VotesOn ctx d st)
    (hvd : st.statement.votedDigest = some d) (hk : vote.OfKind st.statement)
    (hrec : ∃ c, ctx.candidateDigest c = d ∧ Proposed ctx p c)
    (h : validityVote ctx T v d vote = .ok (T₁, m)) :
  Summarizes ctx (p ++ [st]) (noteMisbehavior v (T₁, m))
  := by
  have hW := hT.invariant.recordsWellFormed
  obtain ⟨r, hd⟩ := (hS.records d).mpr hrec
  have hu := unauthorizedBy_iff_of_votesOn (v := v) hinj hW hd hst
  have hprop : ∀ c, Proposed ctx (p ++ [st]) c → Proposed ctx p c :=
    fun _ => (proposed_append_of_votedDigest hvd).mp
  obtain rfl := hst.digestOf
  rcases validityVote_eq_ok h with ⟨hn, -, -⟩ | ⟨r', hd', hcase⟩
  · simp [hd] at hn
  obtain rfl := Option.some.inj (hd.symm.trans hd')
  rcases hcase with ⟨hm, rfl, ⟨_, -, rfl⟩ | ⟨_, -, rfl⟩⟩ | ⟨hm, ⟨old, hv, rfl, rfl⟩ | ⟨hv, rfl, rfl⟩⟩
  · exact hS.append_unauthorized hinj hW hs (hu.mpr hm) _
  · exact hS.append_unauthorized hinj hW hs (hu.mpr hm) _
  · have hold := hT.backed.ofKind hnc hd hv hs hst
    simp only [doubleVoteProof_of_kind hold hk, Option.map_none', ite_self]
    exact hS.redundant hs (by simp [hu, hm]) hprop hd (.of_vote (hS.record _ r hd) hv hold hst)
  · exact hS.insert hs (by simp [hu, hm]) (fun _ => lookup_insert_ite ..) rfl
      (let ⟨c, hc, hp⟩ := hrec; ⟨c, hc, proposed_append.mpr (.inl hp)⟩)
      (fun c h => .inl (hprop c h)) ((hS.record _ r hd).addValidityVote hs hm hst hk hv)

/-- `Available(d)` of `v` on a digest a member proposed. -/
theorem Summarizes.availabilityVote {s : S} (hinj : Function.Injective ctx.candidateDigest)
    (hT : Reachable ctx p T) (hS : Summarizes ctx p T) (hs : ctx.statementSigner st = some v)
    (hst : st.statement = .available d)
    (hrec : ∃ c, ctx.candidateDigest c = d ∧ Proposed ctx p c)
    (h : availabilityVote ctx T v d s = (T₁, m)) :
  Summarizes ctx (p ++ [st]) (noteMisbehavior v (T₁, m))
  := by
  have hW := hT.invariant.recordsWellFormed
  obtain ⟨r, hd⟩ := (hS.records d).mpr hrec
  have hu := unauthorizedBy_iff_of_available (v := v) hinj hW hd hst
  have hdig : digestOf ctx st.statement = d := by rw [hst]; rfl
  rcases availabilityVote_eq h with ⟨hn, -, -⟩ | ⟨r', hd', hcase⟩
  · simp [hd] at hn
  obtain rfl := Option.some.inj (hd.symm.trans hd')
  rcases hcase with ⟨hg, rfl, rfl⟩ | ⟨hg, rfl, rfl⟩
  · exact hS.append_unauthorized hinj hW hs (hu.mpr hg) _
  · subst hdig
    exact hS.insert hs (by simp [hu, hg]) (fun _ => lookup_insert_ite ..) rfl
      (let ⟨c, hc, hp⟩ := hrec; ⟨c, hc, proposed_append.mpr (.inl hp)⟩)
      (fun c h => .inl ((proposed_append_of_votedDigest (by rw [hst]; rfl)).mp h))
      ((hS.record _ r hd).addAvailabilityVote hs hg hst)

/-- A later proposal of the candidate `v` proposed before: `v` cast the vote `issued` on its
record then, so the statement is redundant. -/
theorem Summarizes.reproposal {c : C} {s s' : S}
    (hinj : Function.Injective ctx.candidateDigest) (hT : Reachable ctx p T)
    (hS : Summarizes ctx p T) (hnc : NonConflicting ctx (p ++ [⟨.candidate c, s⟩]))
    (hs : ctx.statementSigner ⟨.candidate c, s⟩ = some v)
    (hm : ctx.isMemberOf v (ctx.candidateGroup c) = true)
    (hp : T.proposedCandidates.lookup v = some (ctx.candidateDigest c, s'))
    (hv : CandidateAgreement.validityVote ctx T v (ctx.candidateDigest c) (.issued s) =
      .ok (T₁, m)) :
  Summarizes ctx (p ++ [⟨.candidate c, s⟩]) (noteMisbehavior v (T₁, m))
  := by
  have hB := hT.backed
  have hW := hT.invariant.recordsWellFormed
  have hst : VotesOn ctx (ctx.candidateDigest c) ⟨.candidate c, s⟩ := rfl
  obtain ⟨r, hd, hvr⟩ := hT.invariant.proposalVoted v _ _ hp
  have hprop : ∀ c', Proposed ctx (p ++ [⟨.candidate c, s⟩]) c' → Proposed ctx p c' := by
    intro c' h'
    rcases proposed_append.mp h' with h' | ⟨w, hc, -⟩
    · exact h'
    · obtain rfl : c = c' := Statement.candidate.inj hc
      obtain ⟨c'', ⟨hmem, hs''⟩, hc''⟩ := hB.proposal v _ _ hp
      obtain rfl := hinj hc''
      exact ⟨v, ⟨s', hmem, hs''⟩, hm⟩
  rcases validityVote_eq_ok hv with ⟨hn, -, -⟩ | ⟨r', hd', hcase⟩
  · simp [hd] at hn
  obtain rfl := Option.some.inj (hd.symm.trans hd')
  rcases hcase with ⟨hm', -⟩ | ⟨-, ⟨old, hold, rfl, rfl⟩ | ⟨hnone, -⟩⟩
  · simp [(record_of_digest hinj hW hd rfl).2, hm] at hm'
  · have hk := hB.ofKind hnc hd hold hs hst
    simp only [doubleVoteProof_of_kind hk
      (show (ValidityVote.issued s).OfKind (.candidate c) from trivial),
      Option.map_none', ite_self]
    exact hS.redundant hs (by simp [UnauthorizedBy, hm]) hprop hd
      (.of_vote (hS.record _ r hd) hold hk hst)
  · exact absurd hvr (AList.lookup_eq_none.mp hnone)

/-- Before a first proposal of `c` by `v`, the record of its digest after `proposeCandidate`,
stored or fresh, is of the candidate's group, is described by the statements, and holds no
vote of `v`. -/
theorem Summarizes.proposeCandidate_record {c : C} {s : S}
    (hinj : Function.Injective ctx.candidateDigest) (hT : Reachable ctx p T)
    (hS : Summarizes ctx p T) (hnc : NonConflicting ctx (p ++ [⟨.candidate c, s⟩]))
    (hwo : WellOrdered ctx p) (hs : ctx.statementSigner ⟨.candidate c, s⟩ = some v)
    (hp : T.proposedCandidates.lookup v = none) :
  ∃ r, (proposeCandidate T v (ctx.candidateGroup c) c (ctx.candidateDigest c) s).candidateVotes.lookup
      (ctx.candidateDigest c) = some r ∧ r.groupId = ctx.candidateGroup c ∧
    RecordSummarizes ctx p (ctx.candidateDigest c) r ∧ r.validityVotes.lookup v = none
  := by
  rw [lookup_proposeCandidate]
  rcases hd : T.candidateVotes.lookup (ctx.candidateDigest c) with _ | r
  · refine ⟨_, by simp, rfl, .empty hinj hwo c fun c' hc' hp' => ?_, rfl⟩
    obtain ⟨r, hr⟩ := (hS.records _).mpr ⟨c', hc', hp'⟩
    simp [hd] at hr
  · refine ⟨r, rfl, (record_of_digest hinj hT.invariant.recordsWellFormed hd rfl).2,
      hS.record _ r hd, ?_⟩
    rcases hold : r.validityVotes.lookup v with _ | old
    · rfl
    · have hk := hT.backed.ofKind hnc hd hold hs rfl
      obtain _ | _ | _ := old
      · simp [hT.invariant.issuedProposed _ r v _ hd hold] at hp
      · exact hk.elim
      · exact hk.elim

/-- A first proposal of `c` by `v`: the record of its digest, stored or fresh, gets the vote
`issued`, and `c` becomes proposed. -/
theorem Summarizes.firstProposal {c : C} {s : S}
    (hinj : Function.Injective ctx.candidateDigest) (hT : Reachable ctx p T)
    (hS : Summarizes ctx p T) (hnc : NonConflicting ctx (p ++ [⟨.candidate c, s⟩]))
    (hwo : WellOrdered ctx p) (hs : ctx.statementSigner ⟨.candidate c, s⟩ = some v)
    (hm : ctx.isMemberOf v (ctx.candidateGroup c) = true)
    (hp : T.proposedCandidates.lookup v = none)
    (hv : CandidateAgreement.validityVote ctx (proposeCandidate T v (ctx.candidateGroup c) c (ctx.candidateDigest c) s)
      v (ctx.candidateDigest c) (.issued s) = .ok (T₁, m)) :
  Summarizes ctx (p ++ [⟨.candidate c, s⟩]) (noteMisbehavior v (T₁, m))
  := by
  obtain ⟨r, hd, hg, hr, hnone⟩ := hS.proposeCandidate_record hinj hT hnc hwo hs hp
  rcases validityVote_eq_ok hv with ⟨hn, -, -⟩ | ⟨r', hd', hcase⟩
  · simp [hd] at hn
  obtain rfl := Option.some.inj (hd.symm.trans hd')
  rcases hcase with ⟨hm', -⟩ | ⟨-, ⟨old, hold, -⟩ | ⟨-, rfl, rfl⟩⟩
  · simp [hg, hm] at hm'
  · simp [hnone] at hold
  refine hS.insert hs (by simp [UnauthorizedBy, hm]) (fun d' => ?_) rfl
    ⟨c, rfl, proposed_append.mpr (.inr ⟨v, rfl, hs, hm⟩)⟩ (fun c' h' => ?_)
    (hr.addValidityVote hs (hg ▸ hm) rfl (show (ValidityVote.issued s).OfKind _ from trivial) hnone)
  · show (AList.insert _ _ _).lookup d' = if d' = ctx.candidateDigest c then _ else _
    rw [lookup_insert_ite]
    split_ifs with h₁
    · rfl
    · rw [lookup_proposeCandidate, if_neg h₁, Option.or_none]
  · rcases proposed_append.mp h' with h' | ⟨w, hc, -⟩
    · exact .inl h'
    · obtain rfl : c = c' := Statement.candidate.inj hc
      exact .inr rfl

/-- A candidate of `v`: unauthorized outside its group; otherwise, with digests identifying
candidates and no conflict, a first proposal creates or joins the record of its digest, and
a later one of the same candidate changes nothing. -/
theorem Summarizes.importCandidate {c : C} {s : S}
    (hinj : Function.Injective ctx.candidateDigest) (hT : Reachable ctx p T)
    (hS : Summarizes ctx p T) (hnc : NonConflicting ctx (p ++ [⟨.candidate c, s⟩]))
    (hwo : WellOrdered ctx p) (hs : ctx.statementSigner ⟨.candidate c, s⟩ = some v)
    (h : importCandidate ctx T v c s = .ok (T₁, m)) :
  Summarizes ctx (p ++ [⟨.candidate c, s⟩]) (noteMisbehavior v (T₁, m))
  := by
  rcases importCandidate_eq_ok h with
    ⟨hm, rfl, rfl⟩ | ⟨hm, ⟨d', s', r, hp, hne, -⟩ | ⟨s', hp, hv⟩ | ⟨hp, hv⟩⟩
  · exact hS.append_unauthorized hinj hT.invariant.recordsWellFormed hs hm _
  · -- a second candidate: excluded, as it conflicts with the first
    obtain ⟨c', ⟨hmem, hs'⟩, hc'⟩ := hT.backed.proposal v d' s' hp
    exact (hne (hc'.symm.trans (hnc.oneDigest v c' c s' s (List.mem_append_left _ hmem)
      (List.mem_append_right _ (List.mem_singleton_self _)) hs' hs))).elim
  · exact hS.reproposal hinj hT hnc hs hm hp hv
  · exact hS.firstProposal hinj hT hnc hwo hs hm hp hv

/-- The step lemma: importing a statement that conflicts with none before it, and comes after
a proposal of its digest if it is a direct vote, keeps the description. -/
theorem Summarizes.importStatement {T' : Table V D C G S}
    (hinj : Function.Injective ctx.candidateDigest) (hT : Reachable ctx p T)
    (hS : Summarizes ctx p T) (hnc : NonConflicting ctx (p ++ [st]))
    (hwo : WellOrdered ctx (p ++ [st])) (h : importStatement ctx T st = .ok T') :
  Summarizes ctx (p ++ [st]) T'
  := by
  have hrec := hwo p st [] rfl
  rcases importStatement_eq_ok h with ⟨hs, rfl⟩ | ⟨v, T₁, m, hs, hd, rfl⟩
  · exact hS.append_unsigned hs
  obtain ⟨a, s⟩ := st
  cases a with
  | candidate c => exact hS.importCandidate hinj hT hnc hwo.of_append hs hd
  | valid d =>
    exact hS.validityVote hinj hT hnc hs rfl rfl (show (ValidityVote.valid s).OfKind _ from trivial)
      (hrec d rfl) hd
  | invalid d =>
    exact hS.validityVote hinj hT hnc hs rfl rfl (show (ValidityVote.invalid s).OfKind _ from trivial)
      (hrec d rfl) hd
  | available d => exact hS.availabilityVote hinj hT hs rfl (hrec d rfl) (Except.ok.inj hd)

/-- The run lemma: after `p`, importing the statements `q` does not panic and keeps the
description, when `p ++ q` has no conflict and is well ordered. -/
theorem Summarizes.run_ok {q : List (SignedStatement C D S)}
    (hinj : Function.Injective ctx.candidateDigest) (hT : Reachable ctx p T)
    (hS : Summarizes ctx p T) (hnc : NonConflicting ctx (p ++ q)) (hwo : WellOrdered ctx (p ++ q)) :
  ∃ T', run ctx T (q.map .importStatement) = .ok T' ∧ Reachable ctx (p ++ q) T' ∧
    Summarizes ctx (p ++ q) T'
  := by
  induction q generalizing p T with
  | nil => exact ⟨T, rfl, by simpa using hT, by simpa using hS⟩
  | cons st q ih =>
    rw [← List.singleton_append, ← List.append_assoc] at hnc hwo ⊢
    obtain ⟨T₁, h₁⟩ := importStatement_ok hT.invariant (fun _ _ h => congrArg _ (hinj h)) st
    obtain ⟨T', hr, hT', hS'⟩ := ih (hT.importStatement st h₁)
      (hS.importStatement hinj hT (hnc.mono (List.subset_append_left _ _)) hwo.of_append h₁) hnc hwo
    exact ⟨T', by simpa [run, step, h₁] using hr, hT', hS'⟩

end Steps

/-! ### Two orders, one outcome -/

section Agreement

variable [DecidableEq V] [DecidableEq D] {ctx : Context V D C G S}
  {p q : List (SignedStatement C D S)} {T T₁ T₂ : Table V D C G S}

omit [DecidableEq V] [DecidableEq D] in
theorem signedIn_congr (h : ∀ x, x ∈ p ↔ x ∈ q) {v : V} {a : Statement C D} :
  SignedIn ctx p v a ↔ SignedIn ctx q v a
  := by
  simp only [SignedIn, h]

omit [DecidableEq V] [DecidableEq D] in
theorem proposed_congr (h : ∀ x, x ∈ p ↔ x ∈ q) {c : C} :
  Proposed ctx p c ↔ Proposed ctx q c
  := by
  simp only [Proposed, signedIn_congr h]

/-- The description depends only on which statements were imported, never on their order. -/
theorem Summarizes.congr (h : ∀ x, x ∈ p ↔ x ∈ q) (hS : Summarizes ctx p T) :
  Summarizes ctx q T
  := by
  refine ⟨fun d => ?_, fun d r hd => ⟨fun w => ?_, fun w => ?_, fun w => ?_⟩, fun w => ?_⟩
  · simp only [hS.records, proposed_congr h]
  · simp only [(hS.record d r hd).validityVoters, VotedOn, h]
  · simp only [(hS.record d r hd).invalidVoters, signedIn_congr h]
  · simp only [(hS.record d r hd).availabilityVoters, signedIn_congr h]
  · simp only [hS.misbehaving, Misbehaved, h]

theorem length_entries_eq {α β : Type} [DecidableEq α] {s s' : AList (fun _ : α => β)}
    (h : ∀ a, a ∈ s ↔ a ∈ s') :
  s.entries.length = s'.entries.length
  := le_antisymm (length_entries_le fun a => (h a).mp) (length_entries_le fun a => (h a).mpr)

omit [DecidableEq D] in
/-- Two well-formed records of one group that the same statements describe under one digest
pass the test of `proposed_candidates` alike: the same validators voted, on validity and on
availability, and the same called the candidate invalid. -/
theorem RecordSummarizes.hasRequisiteVotes_eq {d : D} {r₁ r₂ : CandidateData V C G S}
    (h₁ : RecordSummarizes ctx p d r₁) (h₂ : RecordSummarizes ctx p d r₂)
    (hw₁ : r₁.WellFormed ctx d) (hw₂ : r₂.WellFormed ctx d) (hg : r₁.groupId = r₂.groupId) :
  r₁.hasRequisiteVotes ctx = r₂.hasRequisiteVotes ctx
  := by
  have hvv : ∀ v, v ∈ r₁.validityVotes ↔ v ∈ r₂.validityVotes := fun v => by
    rw [h₁.validityVoters, h₂.validityVoters, hg]
  have hav : ∀ v, v ∈ r₁.availabilityVotes ↔ v ∈ r₂.availabilityVotes := fun v => by
    rw [h₁.availabilityVoters, h₂.availabilityVoters, hg]
  have hbad : ∀ v, v ∈ r₁.indicatedBadBy ↔ v ∈ r₂.indicatedBadBy := fun v => by
    rw [hw₁.mem_indicatedBadBy, hw₂.mem_indicatedBadBy, h₁.invalidVoters, h₂.invalidVoters, hg]
  have hempty : r₁.indicatedBadBy.isEmpty = r₂.indicatedBadBy.isEmpty :=
    Bool.eq_iff_iff.mpr (by simp only [List.isEmpty_iff, List.eq_nil_iff_forall_not_mem, hbad])
  simp only [CandidateData.hasRequisiteVotes, CandidateData.canBeIncluded, hg, hempty,
    length_entries_eq hvv, length_entries_eq hav]

variable [LinearOrder C] [LinearOrder G]

/-- With digests identifying candidates, a candidate that passes the test in a group among
the records of one table passes it among those of another table the same statements
describe. -/
theorem Summarizes.passes (hinj : Function.Injective ctx.candidateDigest)
    (h₁ : Summarizes ctx p T₁) (h₂ : Summarizes ctx p T₂) (hW₁ : T₁.RecordsWellFormed ctx)
    (hW₂ : T₂.RecordsWellFormed ctx) {values₁ values₂ : List (CandidateData V C G S)}
    (hv₁ : values₁.Perm (T₁.candidateVotes.entries.map Sigma.snd))
    (hv₂ : values₂.Perm (T₂.candidateVotes.entries.map Sigma.snd)) {g : G} {c : C}
    (hp : Passes ctx values₁ g c) :
  Passes ctx values₂ g c
  := by
  obtain ⟨r₁, hm, hreq, rfl, rfl⟩ := hp
  obtain ⟨d, hd₁⟩ := mem_map_snd_entries.mp (hv₁.subset hm)
  obtain ⟨r₂, hd₂⟩ := (h₂.records d).mpr ((h₁.records d).mp ⟨r₁, hd₁⟩)
  have hw₁ := hW₁ d r₁ hd₁
  have hw₂ := hW₂ d r₂ hd₂
  have hc : r₂.candidate = r₁.candidate := hinj (hw₂.digest_eq.trans hw₁.digest_eq.symm)
  have hg : r₂.groupId = r₁.groupId := by rw [hw₂.groupId_eq, hw₁.groupId_eq, hc]
  refine ⟨r₂, hv₂.symm.subset (mem_map_snd_entries.mpr ⟨d, hd₂⟩), ?_, hg, hc⟩
  rwa [(h₂.record d r₂ hd₂).hasRequisiteVotes_eq (h₁.record d r₁ hd₁) hw₂ hw₁ hg]

variable [DecidableEq S]

/-- Order independence: two validators that import the same statements, which do not
conflict, each in an order where every direct vote comes after a proposal of its digest,
agree when digests identify candidates.  Neither import panics, the proposals are equal
whatever order the hash maps enumerate their records in, and the same validators are found
misbehaving. -/
theorem importStatements_order_independent (hinj : Function.Injective ctx.candidateDigest)
    {σ₁ σ₂ : List (SignedStatement C D S)} (hperm : σ₁.Perm σ₂) (hnc : NonConflicting ctx σ₁)
    (hwo₁ : WellOrdered ctx σ₁) (hwo₂ : WellOrdered ctx σ₂) :
  ∃ T₁ T₂, run ctx create (σ₁.map .importStatement) = .ok T₁ ∧
    run ctx create (σ₂.map .importStatement) = .ok T₂ ∧
    (∀ values₁ values₂, values₁.Perm (T₁.candidateVotes.entries.map Sigma.snd) →
      values₂.Perm (T₂.candidateVotes.entries.map Sigma.snd) →
      proposedCandidates ctx values₁ = proposedCandidates ctx values₂) ∧
    ∀ v, v ∈ T₁.detectedMisbehavior ↔ v ∈ T₂.detectedMisbehavior
  := by
  obtain ⟨T₁, hr₁, hT₁, hS₁⟩ := Summarizes.run_ok (p := []) hinj .create .create
    (by simpa using hnc) (by simpa using hwo₁)
  obtain ⟨T₂, hr₂, hT₂, hS₂⟩ := Summarizes.run_ok (p := []) hinj .create .create
    (by simpa using hnc.mono hperm.symm.subset) (by simpa using hwo₂)
  simp only [List.nil_append] at hT₁ hS₁ hT₂ hS₂
  have hS₂' := hS₂.congr fun _ => hperm.mem_iff.symm
  have hW₁ := hT₁.invariant.recordsWellFormed
  have hW₂ := hT₂.invariant.recordsWellFormed
  exact ⟨T₁, T₂, hr₁, hr₂, fun _ _ hv₁ hv₂ => proposedCandidates_congr fun _ _ =>
      ⟨hS₁.passes hinj hS₂' hW₁ hW₂ hv₁ hv₂, hS₂'.passes hinj hS₁ hW₂ hW₁ hv₂ hv₁⟩,
    fun v => (hS₁.misbehaving v).trans (hS₂'.misbehaving v).symm⟩

/-- Validators 1 and 2 of group 2 propose and approve the candidate `(2, 100)`, and
validator 3, of no group, proposes `(3, 7)`; two validators import these statements, the
second with the unauthorized proposal first. -/
theorem importStatements_order_independent_unauthorized :
  ∃ T₁ T₂,
    run (distinctDigestContext (AList.insert 1 (2, 455) (AList.insert 2 (2, 455) ∅))) create
      (List.map Action.importStatement [⟨.candidate (toLex (2, 100)), 1⟩,
        ⟨.valid (toLex (2, 100)), 2⟩, ⟨.candidate (toLex (3, 7)), 3⟩]) = .ok T₁ ∧
    run (distinctDigestContext (AList.insert 1 (2, 455) (AList.insert 2 (2, 455) ∅))) create
      (List.map Action.importStatement [⟨.candidate (toLex (3, 7)), 3⟩,
        ⟨.candidate (toLex (2, 100)), 1⟩, ⟨.valid (toLex (2, 100)), 2⟩]) = .ok T₂ ∧
    (∀ values₁ values₂, values₁.Perm (T₁.candidateVotes.entries.map Sigma.snd) →
      values₂.Perm (T₂.candidateVotes.entries.map Sigma.snd) →
      proposedCandidates (distinctDigestContext
          (AList.insert 1 (2, 455) (AList.insert 2 (2, 455) ∅))) values₁ =
        proposedCandidates (distinctDigestContext
          (AList.insert 1 (2, 455) (AList.insert 2 (2, 455) ∅))) values₂) ∧
    ∀ v, v ∈ T₁.detectedMisbehavior ↔ v ∈ T₂.detectedMisbehavior
  := importStatements_order_independent Function.injective_id (by decide)
    (.of_nodup (by decide))
    (by
      show WellOrdered _ ([] ++ [_] ++ [_] ++ [_])
      exact ((WellOrdered.nil.append_singleton fun _ h => by cases h).append_singleton
        fun _ h => by exact ⟨_, Option.some.inj h, 1, ⟨1, by simp, rfl⟩, rfl⟩).append_singleton
        fun _ h => by cases h)
    (by
      show WellOrdered _ ([] ++ [_] ++ [_] ++ [_])
      exact ((WellOrdered.nil.append_singleton fun _ h => by cases h).append_singleton
        fun _ h => by cases h).append_singleton
        fun _ h => ⟨_, Option.some.inj h, 1, ⟨1, by simp, rfl⟩, rfl⟩)

end Agreement

end CandidateAgreement
