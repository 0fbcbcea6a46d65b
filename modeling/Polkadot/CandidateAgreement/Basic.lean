import Mathlib.Data.List.AList

/-!
# The statement table: data

The vocabulary of the statement table of `candidate-agreement/src/table.rs`: the
`Statement`s validators sign about parachain candidates, the `Context` that supplies
digests, groups, membership, signer recovery and thresholds, the `Misbehavior` proofs the
table emits, and the table itself with its per-candidate records `CandidateData`.

The Rust `HashMap`s are association lists `AList`, whose keys are distinct.  The order of
their entries is not a property of a `HashMap`; the one place the table reads it,
`proposed_candidates`, is studied over every order of enumeration.  The types of the
context are parameters: `V` validators, `D` digests, `C` candidates, `G` groups and `S`
signatures.
-/

namespace CandidateAgreement

/-- Statements circulated among peers. -/
inductive Statement (C D : Type) where
  /-- The signer's candidate for inclusion. -/
  | candidate (c : C)
  /-- The candidate with the given digest is valid. -/
  | valid (d : D)
  /-- The auxiliary data of the candidate with the given digest is available. -/
  | available (d : D)
  /-- The candidate with the given digest is invalid. -/
  | invalid (d : D)
  deriving DecidableEq

/-- A signed statement. -/
structure SignedStatement (C D S : Type) where
  statement : Statement C D
  signature : S
  deriving DecidableEq

/-- The context of the table: the digest and group of a candidate, the two membership
predicates, the recovery of a statement's signer, and the numbers of validity and
availability votes a group requires. -/
structure Context (V D C G S : Type) where
  candidateDigest : C → D
  candidateGroup : C → G
  isMemberOf : V → G → Bool
  isAvailabilityGuarantorOf : V → G → Bool
  statementSigner : SignedStatement C D S → Option V
  requisiteVotes : G → ℕ × ℕ

/-- Misbehavior: voting more than one way on the validity of a candidate. -/
inductive ValidityDoubleVote (C D S : Type) where
  /-- Implicit vote by issuing, and an explicit validity vote. -/
  | issuedAndValidity (issued : C × S) (valid : D × S)
  /-- Implicit vote by issuing, and an explicit invalidity vote. -/
  | issuedAndInvalidity (issued : C × S) (invalid : D × S)
  /-- Direct votes for validity and for invalidity. -/
  | validityAndInvalidity (digest : D) (valid invalid : S)
  deriving DecidableEq

/-- Misbehavior: declaring two candidates. -/
structure MultipleCandidates (C S : Type) where
  first : C × S
  second : C × S
  deriving DecidableEq

/-- Misbehavior: a statement submitted without the authority to make it. -/
structure UnauthorizedStatement (C D S : Type) where
  statement : SignedStatement C D S
  deriving DecidableEq

/-- The kinds of provable misbehavior. -/
inductive Misbehavior (C D S : Type) where
  | validityDoubleVote (proof : ValidityDoubleVote C D S)
  | multipleCandidates (proof : MultipleCandidates C S)
  | unauthorizedStatement (proof : UnauthorizedStatement C D S)
  deriving DecidableEq

/-- The kinds of votes on validity; `issued` is the implicit vote of a proposer. -/
inductive ValidityVote (S : Type) where
  | issued (s : S)
  | valid (s : S)
  | invalid (s : S)
  deriving DecidableEq

/-- The votes and data about one candidate. -/
structure CandidateData (V C G S : Type) where
  groupId : G
  candidate : C
  validityVotes : AList (fun _ : V => ValidityVote S)
  availabilityVotes : AList (fun _ : V => S)
  indicatedBadBy : List V

/-- The statement table: the digest and signature each validator proposed, the last
misbehavior detected of each validator, and the record of each candidate by digest. -/
structure Table (V D C G S : Type) where
  proposedCandidates : AList (fun _ : V => D × S)
  detectedMisbehavior : AList (fun _ : V => Misbehavior C D S)
  candidateVotes : AList (fun _ : D => CandidateData V C G S)

variable {V D C G S : Type}

/-- `create`: the empty table. -/
def create : Table V D C G S :=
  ⟨∅, ∅, ∅⟩

namespace CandidateData

/-- `indicated_bad`: whether anyone has indicated the candidate bad. -/
def indicatedBad (r : CandidateData V C G S) : Bool :=
  !r.indicatedBadBy.isEmpty

/-- `voted_valid_by`: the validators whose vote on the candidate is `issued` or `valid`. -/
def votedValidBy (r : CandidateData V C G S) : List V :=
  r.validityVotes.entries.filterMap fun e =>
    match e.2 with
    | .issued _ | .valid _ => some e.1
    | .invalid _ => none

/-- `can_be_included`: enough validity and availability votes, and no validator called the
candidate bad. -/
def canBeIncluded (r : CandidateData V C G S) (validityThreshold availabilityThreshold : ℕ) :
    Bool :=
  r.indicatedBadBy.isEmpty && decide (validityThreshold ≤ r.validityVotes.entries.length)
    && decide (availabilityThreshold ≤ r.availabilityVotes.entries.length)

end CandidateData

end CandidateAgreement
