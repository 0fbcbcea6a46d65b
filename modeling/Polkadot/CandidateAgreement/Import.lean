import Polkadot.CandidateAgreement.Basic
import Mathlib.Data.Prod.Lex

/-!
# Importing statements

`importStatement` recovers the signer of a statement, hands the statement to
`importCandidate`, `validityVote` or `availabilityVote`, and records the misbehavior the
handler returns.  The two `expect`/`panic!` sites of the source are `Except.error`s carrying
their messages.  `run` drives a table through a list of `Action`s, and `Reachable ctx H T`
says that `T` is reached from `create` by imports and drains in which the statements `H`
were imported.
-/

namespace CandidateAgreement

variable {V D C G S : Type} [DecidableEq V] [DecidableEq D]

/-- The double-vote proof of a validator whose stored vote is `old` and whose new vote is
`new`; none when both are of the same kind. -/
def doubleVoteProof (candidate : C) (digest : D) :
    ValidityVote S → ValidityVote S → Option (ValidityDoubleVote C D S)
  | .issued iss, .valid good | .valid good, .issued iss =>
    some (.issuedAndValidity (candidate, iss) (digest, good))
  | .issued iss, .invalid bad | .invalid bad, .issued iss =>
    some (.issuedAndInvalidity (candidate, iss) (digest, bad))
  | .valid good, .invalid bad | .invalid bad, .valid good =>
    some (.validityAndInvalidity digest good bad)
  | _, _ => none

/-- The record with the vacant validity vote of `sender` filled by `vote`; an invalidity
vote also appends `sender` to `indicatedBadBy`. -/
def CandidateData.addValidityVote (r : CandidateData V C G S) (sender : V)
    (vote : ValidityVote S) : CandidateData V C G S :=
  { r with
    indicatedBadBy :=
      match vote with
      | .invalid _ => r.indicatedBadBy ++ [sender]
      | _ => r.indicatedBadBy
    validityVotes := r.validityVotes.insert sender vote }

/-- `availability_vote`: the availability vote of `sender` on the candidate with digest
`digest`, dropped on an unknown digest and unauthorized from outside the guarantors. -/
def availabilityVote (ctx : Context V D C G S) (T : Table V D C G S) (sender : V)
    (digest : D) (signature : S) : Table V D C G S × Option (Misbehavior C D S) :=
  match T.candidateVotes.lookup digest with
  | none => (T, none)
  | some votes =>
    if !ctx.isAvailabilityGuarantorOf sender votes.groupId then
      (T, some (.unauthorizedStatement ⟨⟨.available digest, signature⟩⟩))
    else
      ({ T with
        candidateVotes := T.candidateVotes.insert digest
          { votes with availabilityVotes := votes.availabilityVotes.insert sender signature } },
        none)

/-- The vacant branch of `import_candidate`: note the proposal of `sender` and create the
record of the candidate unless one is stored under its digest. -/
def proposeCandidate (T : Table V D C G S) (sender : V) (group : G) (candidate : C)
    (digest : D) (signature : S) : Table V D C G S :=
  { T with
    proposedCandidates := T.proposedCandidates.insert sender (digest, signature)
    candidateVotes :=
      if digest ∈ T.candidateVotes then T.candidateVotes
      else T.candidateVotes.insert digest ⟨group, candidate, ∅, ∅, []⟩ }

/-- Record the misbehavior a handler returned against `signer`, overwriting an earlier one. -/
def noteMisbehavior (signer : V) : Table V D C G S × Option (Misbehavior C D S) →
    Table V D C G S
  | (T, some misbehavior) =>
    { T with detectedMisbehavior := T.detectedMisbehavior.insert signer misbehavior }
  | (T, none) => T

/-- `drain_misbehavior`: the misbehavior detected so far, and the table without it. -/
def drainMisbehavior (T : Table V D C G S) :
    AList (fun _ : V => Misbehavior C D S) × Table V D C G S :=
  (T.detectedMisbehavior, { T with detectedMisbehavior := ∅ })

/-- The two mutating calls of the table's interface. -/
inductive Action (C D S : Type) where
  | importStatement (statement : SignedStatement C D S)
  | drainMisbehavior

/-- The statements a sequence of calls imports. -/
def Action.imported : List (Action C D S) → List (SignedStatement C D S)
  | [] => []
  | .importStatement statement :: as => statement :: imported as
  | .drainMisbehavior :: as => imported as

section

variable [DecidableEq S]

/-- `validity_vote`: the validity vote `vote` of `sender` on the candidate with digest
`digest`.  A vote on an unknown digest is dropped; a vote from outside the candidate's
group is unauthorized; a vote that differs from the stored one is a double vote, and the
stored vote stays. -/
def validityVote (ctx : Context V D C G S) (T : Table V D C G S) (sender : V) (digest : D)
    (vote : ValidityVote S) : Except String (Table V D C G S × Option (Misbehavior C D S)) :=
  match T.candidateVotes.lookup digest with
  | none => .ok (T, none)
  | some votes =>
    if !ctx.isMemberOf sender votes.groupId then
      match vote with
      | .valid s => .ok (T, some (.unauthorizedStatement ⟨⟨.valid digest, s⟩⟩))
      | .invalid s => .ok (T, some (.unauthorizedStatement ⟨⟨.invalid digest, s⟩⟩))
      | .issued _ =>
        .error "implicit issuance vote only cast if the candidate entry already created successfully; qed"
    else
      match votes.validityVotes.lookup sender with
      | some old =>
        if old ≠ vote then
          .ok (T, (doubleVoteProof votes.candidate digest old vote).map .validityDoubleVote)
        else .ok (T, none)
      | none =>
        .ok ({ T with
          candidateVotes := T.candidateVotes.insert digest (votes.addValidityVote sender vote) },
          none)

/-- `import_candidate`: the candidate statement of `sender`.  A proposer outside the
candidate's group is unauthorized, a second candidate of another digest is misbehavior,
and otherwise the proposal casts the implicit vote `issued`. -/
def importCandidate (ctx : Context V D C G S) (T : Table V D C G S) (sender : V)
    (candidate : C) (signature : S) :
    Except String (Table V D C G S × Option (Misbehavior C D S)) :=
  let group := ctx.candidateGroup candidate
  if !ctx.isMemberOf sender group then
    .ok (T, some (.unauthorizedStatement ⟨⟨.candidate candidate, signature⟩⟩))
  else
    let digest := ctx.candidateDigest candidate
    match T.proposedCandidates.lookup sender with
    | some (oldDigest, oldSignature) =>
      if oldDigest ≠ digest then
        match T.candidateVotes.lookup oldDigest with
        | none => .error "proposed digest implies existence of votes entry; qed"
        | some old =>
          .ok (T, some (.multipleCandidates ⟨(old.candidate, oldSignature), (candidate, signature)⟩))
      else validityVote ctx T sender digest (.issued signature)
    | none =>
      validityVote ctx (proposeCandidate T sender group candidate digest signature) sender digest
        (.issued signature)

/-- The handler `import_statement` runs on a statement of `signer`, with the misbehavior it
returns. -/
def dispatch (ctx : Context V D C G S) (T : Table V D C G S) (signer : V)
    (statement : SignedStatement C D S) :
    Except String (Table V D C G S × Option (Misbehavior C D S)) :=
  match statement.statement with
  | .candidate candidate => importCandidate ctx T signer candidate statement.signature
  | .valid digest => validityVote ctx T signer digest (.valid statement.signature)
  | .invalid digest => validityVote ctx T signer digest (.invalid statement.signature)
  | .available digest => .ok (availabilityVote ctx T signer digest statement.signature)

/-- `import_statement`: a statement whose signer cannot be recovered is dropped. -/
def importStatement (ctx : Context V D C G S) (T : Table V D C G S)
    (statement : SignedStatement C D S) : Except String (Table V D C G S) :=
  match ctx.statementSigner statement with
  | none => .ok T
  | some signer =>
    match dispatch ctx T signer statement with
    | .ok result => .ok (noteMisbehavior signer result)
    | .error e => .error e

/-- One call on the table. -/
def step (ctx : Context V D C G S) (T : Table V D C G S) :
    Action C D S → Except String (Table V D C G S)
  | .importStatement statement => importStatement ctx T statement
  | .drainMisbehavior => .ok (drainMisbehavior T).2

/-- A sequence of calls, stopping at the first panic. -/
def run (ctx : Context V D C G S) : Table V D C G S → List (Action C D S) →
    Except String (Table V D C G S)
  | T, [] => .ok T
  | T, a :: as =>
    match step ctx T a with
    | .ok T' => run ctx T' as
    | .error e => .error e

/-- `Reachable ctx H T`: a run from `create` of imports that did not panic and of drains
ends in `T`, and imported the statements `H`, in order. -/
inductive Reachable (ctx : Context V D C G S) :
    List (SignedStatement C D S) → Table V D C G S → Prop where
  | create : Reachable ctx [] create
  | importStatement {H T T'} (statement : SignedStatement C D S) :
      Reachable ctx H T → importStatement ctx T statement = .ok T' →
      Reachable ctx (H ++ [statement]) T'
  | drainMisbehavior {H T} : Reachable ctx H T → Reachable ctx H (drainMisbehavior T).2

end

/-! ### Field lemmas -/

theorem lookup_insert_eq_some {α β : Type} [DecidableEq α] {s : AList (fun _ : α => β)}
    {a a' : α} {b b' : β} :
  (s.insert a b).lookup a' = some b' ↔ a' = a ∧ b = b' ∨ a' ≠ a ∧ s.lookup a' = some b'
  := by
  by_cases h : a' = a
  · subst h
    simp
  · simp [h, AList.lookup_insert_ne h]

section Fields

variable (r : CandidateData V C G S) (T : Table V D C G S) (v : V) (vote : ValidityVote S)

@[simp]
theorem addValidityVote_groupId :
  (r.addValidityVote v vote).groupId = r.groupId
  := rfl

@[simp]
theorem addValidityVote_candidate :
  (r.addValidityVote v vote).candidate = r.candidate
  := rfl

@[simp]
theorem addValidityVote_validityVotes :
  (r.addValidityVote v vote).validityVotes = r.validityVotes.insert v vote
  := rfl

@[simp]
theorem addValidityVote_availabilityVotes :
  (r.addValidityVote v vote).availabilityVotes = r.availabilityVotes
  := rfl

theorem mem_addValidityVote_indicatedBadBy (w : V) :
  w ∈ (r.addValidityVote v vote).indicatedBadBy
    ↔ w ∈ r.indicatedBadBy ∨ w = v ∧ ∃ s, vote = .invalid s
  := by
  cases vote <;> simp [CandidateData.addValidityVote]

variable (g : G) (c : C) (d : D) (s : S)

@[simp]
theorem proposeCandidate_proposedCandidates :
  (proposeCandidate T v g c d s).proposedCandidates = T.proposedCandidates.insert v (d, s)
  := rfl

@[simp]
theorem proposeCandidate_detectedMisbehavior :
  (proposeCandidate T v g c d s).detectedMisbehavior = T.detectedMisbehavior
  := rfl

/-- The record `proposeCandidate` leaves under a digest: the stored one, else the new one. -/
theorem lookup_proposeCandidate (d' : D) :
  (proposeCandidate T v g c d s).candidateVotes.lookup d'
    = (T.candidateVotes.lookup d').or (if d' = d then some ⟨g, c, ∅, ∅, []⟩ else none)
  := by
  by_cases h : d' = d
  · subst h
    by_cases hd : d' ∈ T.candidateVotes
    · obtain ⟨r, hr⟩ := Option.isSome_iff_exists.mp (AList.lookup_isSome.mpr hd)
      simp [proposeCandidate, hd, hr]
    · simp [proposeCandidate, hd, AList.lookup_eq_none.mpr hd]
  · by_cases hd : d ∈ T.candidateVotes <;>
      simp [proposeCandidate, hd, h, AList.lookup_insert_ne h]

omit [DecidableEq D] in
@[simp]
theorem noteMisbehavior_candidateVotes (p : Table V D C G S × Option (Misbehavior C D S)) :
  (noteMisbehavior v p).candidateVotes = p.1.candidateVotes
  := by
  obtain ⟨T, _ | m⟩ := p <;> rfl

omit [DecidableEq D] in
@[simp]
theorem noteMisbehavior_proposedCandidates (p : Table V D C G S × Option (Misbehavior C D S)) :
  (noteMisbehavior v p).proposedCandidates = p.1.proposedCandidates
  := by
  obtain ⟨T, _ | m⟩ := p <;> rfl

end Fields

/-! ### The outcomes of the handlers -/

section Outcomes

variable {ctx : Context V D C G S} {T T' : Table V D C G S} {v : V} {d : D} {s : S}
  {c : C} {m : Option (Misbehavior C D S)}

/-- The outcomes of `availabilityVote`. -/
theorem availabilityVote_eq (h : availabilityVote ctx T v d s = (T', m)) :
  T.candidateVotes.lookup d = none ∧ T' = T ∧ m = none ∨
  ∃ r, T.candidateVotes.lookup d = some r ∧
    (ctx.isAvailabilityGuarantorOf v r.groupId = false ∧ T' = T ∧
        m = some (.unauthorizedStatement ⟨⟨.available d, s⟩⟩) ∨
      ctx.isAvailabilityGuarantorOf v r.groupId = true ∧ m = none ∧
        T' = { T with
          candidateVotes :=
            T.candidateVotes.insert d
              { r with availabilityVotes := r.availabilityVotes.insert v s } })
  := by
  unfold availabilityVote at h
  rcases hd : T.candidateVotes.lookup d with _ | r <;> simp only [hd, Prod.mk.injEq] at h
  · exact .inl ⟨rfl, h.1.symm, h.2.symm⟩
  · refine .inr ⟨r, rfl, ?_⟩
    cases hg : ctx.isAvailabilityGuarantorOf v r.groupId <;>
      simp only [hg, Bool.not_false, Bool.not_true, ite_true, Bool.false_eq_true, ite_false,
        Prod.mk.injEq] at h <;> simp [h]

variable [DecidableEq S] {vote : ValidityVote S}

/-- The outcomes of `validityVote`: dropped, unauthorized, a second vote, or a first vote
filling the vacant entry. -/
theorem validityVote_eq_ok (h : validityVote ctx T v d vote = .ok (T', m)) :
  T.candidateVotes.lookup d = none ∧ T' = T ∧ m = none ∨
  ∃ r, T.candidateVotes.lookup d = some r ∧
    (ctx.isMemberOf v r.groupId = false ∧ T' = T ∧
        ((∃ s, vote = .valid s ∧ m = some (.unauthorizedStatement ⟨⟨.valid d, s⟩⟩)) ∨
          ∃ s, vote = .invalid s ∧ m = some (.unauthorizedStatement ⟨⟨.invalid d, s⟩⟩)) ∨
      ctx.isMemberOf v r.groupId = true ∧
        ((∃ old, r.validityVotes.lookup v = some old ∧ T' = T ∧
            m = if old = vote then none
              else (doubleVoteProof r.candidate d old vote).map .validityDoubleVote) ∨
          r.validityVotes.lookup v = none ∧ m = none ∧
            T' = { T with
              candidateVotes := T.candidateVotes.insert d (r.addValidityVote v vote) }))
  := by
  unfold validityVote at h
  rcases hd : T.candidateVotes.lookup d with _ | r
  · simp only [hd, Except.ok.injEq, Prod.mk.injEq] at h
    exact .inl ⟨rfl, h.1.symm, h.2.symm⟩
  · simp only [hd] at h
    refine .inr ⟨r, rfl, ?_⟩
    cases hm : ctx.isMemberOf v r.groupId
    · simp only [hm, Bool.not_false, ite_true] at h
      refine .inl ⟨rfl, ?_⟩
      cases vote <;> simp only [Except.ok.injEq, Prod.mk.injEq, reduceCtorEq] at h <;>
        obtain ⟨rfl, rfl⟩ := h <;> simp
    · simp only [hm, Bool.not_true, Bool.false_eq_true, ite_false] at h
      refine .inr ⟨rfl, ?_⟩
      rcases hv : r.validityVotes.lookup v with _ | old <;>
        simp only [hv, ne_eq, ite_not, Except.ok.injEq, Prod.mk.injEq] at h
      · exact .inr ⟨rfl, h.2.symm, h.1.symm⟩
      · refine .inl ⟨old, rfl, ?_⟩
        split_ifs at h <;> obtain ⟨rfl, rfl⟩ := h <;> simp_all

/-- The outcomes of `importCandidate`: unauthorized, a second candidate, a re-proposal, or a
first proposal; the last two cast the implicit vote. -/
theorem importCandidate_eq_ok (h : importCandidate ctx T v c s = .ok (T', m)) :
  ctx.isMemberOf v (ctx.candidateGroup c) = false ∧ T' = T ∧
      m = some (.unauthorizedStatement ⟨⟨.candidate c, s⟩⟩) ∨
  ctx.isMemberOf v (ctx.candidateGroup c) = true ∧
    ((∃ d' s' r, T.proposedCandidates.lookup v = some (d', s') ∧ d' ≠ ctx.candidateDigest c ∧
        T.candidateVotes.lookup d' = some r ∧ T' = T ∧
        m = some (.multipleCandidates ⟨(r.candidate, s'), (c, s)⟩)) ∨
      (∃ s', T.proposedCandidates.lookup v = some (ctx.candidateDigest c, s') ∧
        validityVote ctx T v (ctx.candidateDigest c) (.issued s) = .ok (T', m)) ∨
      T.proposedCandidates.lookup v = none ∧
        validityVote ctx (proposeCandidate T v (ctx.candidateGroup c) c (ctx.candidateDigest c) s)
          v (ctx.candidateDigest c) (.issued s) = .ok (T', m))
  := by
  unfold importCandidate at h
  cases hg : ctx.isMemberOf v (ctx.candidateGroup c)
  · simp only [hg, Bool.not_false, ite_true, Except.ok.injEq, Prod.mk.injEq] at h
    exact .inl ⟨rfl, h.1.symm, h.2.symm⟩
  · simp only [hg, Bool.not_true, Bool.false_eq_true, ite_false] at h
    refine .inr ⟨rfl, ?_⟩
    rcases hp : T.proposedCandidates.lookup v with _ | ⟨d', s'⟩ <;> simp only [hp] at h
    · exact .inr (.inr ⟨rfl, h⟩)
    · by_cases hd : d' = ctx.candidateDigest c
      · subst hd
        simp only [ne_eq, not_true_eq_false, ite_false] at h
        exact .inr (.inl ⟨s', rfl, h⟩)
      · simp only [ne_eq, hd, not_false_eq_true, ite_true] at h
        rcases hr : T.candidateVotes.lookup d' with _ | r <;>
          simp only [hr, Except.ok.injEq, Prod.mk.injEq, reduceCtorEq] at h
        exact .inl ⟨d', s', r, rfl, hd, hr, h.1.symm, h.2.symm⟩

/-- The outcomes of `importStatement`: dropped, or the handler's table with the returned
misbehavior noted against the signer. -/
theorem importStatement_eq_ok {st : SignedStatement C D S}
    (h : importStatement ctx T st = .ok T') :
  ctx.statementSigner st = none ∧ T' = T ∨
  ∃ v T₁ m, ctx.statementSigner st = some v ∧ dispatch ctx T v st = .ok (T₁, m) ∧
    T' = noteMisbehavior v (T₁, m)
  := by
  unfold importStatement at h
  rcases hs : ctx.statementSigner st with _ | w <;> simp only [hs, Except.ok.injEq] at h
  · exact .inl ⟨rfl, h.symm⟩
  · rcases hd : dispatch ctx T w st with e | ⟨T₁, m₁⟩ <;>
      simp only [hd, Except.ok.injEq, reduceCtorEq] at h
    exact .inr ⟨w, T₁, m₁, rfl, hd, h.symm⟩

end Outcomes

/-! ### Runs -/

/-- A run from a reachable table ends in a reachable table, with the run's statements
appended to the history. -/
theorem Reachable.after_run [DecidableEq S] {ctx : Context V D C G S}
    {H : List (SignedStatement C D S)} {T T' : Table V D C G S} {as : List (Action C D S)}
    (hT : Reachable ctx H T) (h : run ctx T as = .ok T') :
  Reachable ctx (H ++ Action.imported as) T'
  := by
  induction as generalizing H T with
  | nil =>
    simp only [run, Except.ok.injEq] at h
    subst h
    simpa [Action.imported] using hT
  | cons a as ih =>
    rcases hs : step ctx T a with e | T₁ <;> simp only [run, hs, reduceCtorEq] at h
    cases a with
    | importStatement st => simpa [Action.imported] using ih (hT.importStatement st hs) h
    | drainMisbehavior =>
      simp only [step, Except.ok.injEq] at hs
      subst hs
      exact ih hT.drainMisbehavior h

/-! ### The context of the tests -/

/-- `TestContext` of the repository's tests: a candidate is a pair (group, body) ordered
lexicographically and digested to its body, a validator is a member of the first and a
guarantor of the second group `validators` assigns it, the signer of a statement is its
signature, and every group requires 6 validity and 34 availability votes. -/
def testContext (validators : AList (fun _ : ℕ => ℕ × ℕ)) : Context ℕ ℕ (ℕ ×ₗ ℕ) ℕ ℕ where
  candidateDigest c := (ofLex c).2
  candidateGroup c := (ofLex c).1
  isMemberOf v g := ((validators.lookup v).map fun p => p.1 == g).getD false
  isAvailabilityGuarantorOf v g := ((validators.lookup v).map fun p => p.2 == g).getD false
  statementSigner st := some st.signature
  requisiteVotes _ := (6, 34)

/-- The context of the tests with every candidate its own digest, so that digests identify
candidates. -/
def distinctDigestContext (validators : AList (fun _ : ℕ => ℕ × ℕ)) :
    Context ℕ (ℕ ×ₗ ℕ) (ℕ ×ₗ ℕ) ℕ ℕ where
  candidateDigest c := c
  candidateGroup := (testContext validators).candidateGroup
  isMemberOf := (testContext validators).isMemberOf
  isAvailabilityGuarantorOf := (testContext validators).isAvailabilityGuarantorOf
  statementSigner st := some st.signature
  requisiteVotes := (testContext validators).requisiteVotes

/-- The context of the tests with thresholds that one validity vote and no availability vote
meet, so that records become includable. -/
def oneVoteContext (validators : AList (fun _ : ℕ => ℕ × ℕ)) : Context ℕ ℕ (ℕ ×ₗ ℕ) ℕ ℕ :=
  { testContext validators with requisiteVotes := fun _ => (1, 0) }

/-- Validators 1, 2 and 3 of group 2 and validator 4 of group 3, each a guarantor of its own
group. -/
def fourValidators : AList (fun _ : ℕ => ℕ × ℕ) :=
  AList.insert 4 (3, 3) (AList.insert 3 (2, 2) (AList.insert 2 (2, 2) (AList.insert 1 (2, 2) ∅)))

end CandidateAgreement
