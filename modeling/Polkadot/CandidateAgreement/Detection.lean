import Polkadot.CandidateAgreement.OrderIndependence

/-!
# Detecting conflicting statements

`reachable_misbehavior_sound` says that a report against a validator is backed by what it
signed.  Here is the converse for conflicts: a validator that signs two conflicting
statements (`Conflicts`) is reported once both are imported, whatever is imported before,
between and after them, as long as nothing drains the reports.

A handler that reports nothing leaves the table holding what the statement commits its
signer to (`Committed`): the digest of its proposal, and a vote of the statement's kind on
the record of its digest (`dispatch_committed`).  Every later call keeps the commitment
(`Committed.mono`), and every later import keeps a report.  A statement of another kind on
that digest, or a candidate of another digest, then meets the stored vote or proposal and
is reported (`dispatch_reported`).

The first statement commits its signer only if the record of its digest exists when it is
imported: a vote on a digest nobody has proposed yet is dropped, so a vote, then the
candidate, then a conflicting vote escape detection.
-/

namespace CandidateAgreement

variable {V D C G S : Type}

/-! ### Conflicts and commitments -/

/-- Two statements no honest validator signs both of: candidates of two digests, or
statements of two kinds on one digest, a candidate being the implicit vote on its digest. -/
def Conflicts (ctx : Context V D C G S) (st₁ st₂ : SignedStatement C D S) : Prop :=
  (∃ c₁ c₂, st₁.statement = .candidate c₁ ∧ st₂.statement = .candidate c₂ ∧
    ctx.candidateDigest c₁ ≠ ctx.candidateDigest c₂) ∨
  ∃ d, VotesOn ctx d st₁ ∧ VotesOn ctx d st₂ ∧ ¬st₁.statement.SameKind st₂.statement

/-- What a table holds of the statement `st` of `v`: the digest of its proposal, if `st` is a
candidate, and a vote of the kind of `st` on the record of the digest `st` votes on. -/
structure Committed [DecidableEq V] [DecidableEq D] (ctx : Context V D C G S)
    (T : Table V D C G S) (v : V) (st : SignedStatement C D S) : Prop where
  proposal : ∀ c, st.statement = .candidate c →
    ∃ s, T.proposedCandidates.lookup v = some (ctx.candidateDigest c, s)
  vote : ∀ d, VotesOn ctx d st →
    ∃ r old, T.candidateVotes.lookup d = some r ∧ r.validityVotes.lookup v = some old ∧
      old.OfKind st.statement

/-- A vote has the kind of two statements only if they are of one kind. -/
theorem ValidityVote.OfKind.sameKind_of_ofKind {vote : ValidityVote S} {a b : Statement C D}
    (ha : vote.OfKind a) (hb : vote.OfKind b) :
  a.SameKind b
  := by
  cases vote <;> cases a <;> cases b <;> trivial

/-- A stored vote of another kind than the new one makes a double-vote proof. -/
theorem doubleVoteProof_isSome {c : C} {d : D} {old vote : ValidityVote S} {b : Statement C D}
    (hold : ¬old.OfKind b) (hvote : vote.OfKind b) :
  (doubleVoteProof c d old vote).isSome
  := by
  cases old <;> cases vote <;> cases b <;>
    first | rfl | exact (hold trivial).elim | exact hvote.elim

variable [DecidableEq V] [DecidableEq D] {ctx : Context V D C G S} {T T' : Table V D C G S}
  {v : V} {d : D} {r : CandidateData V C G S}

omit [DecidableEq D] in
/-- The reports after `noteMisbehavior`: the earlier ones, and `v` if the handler reported. -/
theorem mem_noteMisbehavior_detectedMisbehavior {w : V}
    (p : Table V D C G S × Option (Misbehavior C D S)) :
  w ∈ (noteMisbehavior v p).detectedMisbehavior ↔
    w = v ∧ p.2.isSome ∨ w ∈ p.1.detectedMisbehavior
  := by
  obtain ⟨T, _ | m⟩ := p <;> simp [noteMisbehavior, AList.mem_insert]

/-- Every call keeps a commitment. -/
theorem Committed.mono {st : SignedStatement C D S} (h : Committed ctx T v st)
    (he : T.Extends T') :
  Committed ctx T' v st
  := by
  refine ⟨fun c hc => ?_, fun d hd => ?_⟩
  · obtain ⟨s, hs⟩ := h.proposal c hc
    exact ⟨s, he.proposedCandidates v _ hs⟩
  · obtain ⟨r, old, hr, hold, hk⟩ := h.vote d hd
    obtain ⟨r', hr', e⟩ := he.candidateVotes d r hr
    exact ⟨r', old, hr', e.validityVotes v old hold, hk⟩

/-! ### One statement -/

section Handlers

variable [DecidableEq S] {old vote : ValidityVote S} {b : Statement C D}
  {T₁ : Table V D C G S} {m : Option (Misbehavior C D S)}

/-- A validity vote of `v` on a record that holds a vote of `v` of another kind is
reported. -/
theorem validityVote_reported (hd : T.candidateVotes.lookup d = some r)
    (hold : r.validityVotes.lookup v = some old) (hk : ¬old.OfKind b) (hvote : vote.OfKind b)
    (h : validityVote ctx T v d vote = .ok (T₁, m)) :
  m.isSome
  := by
  rcases validityVote_eq_ok h with ⟨hn, -, -⟩ | ⟨r', hd', hcase⟩
  · simp [hd] at hn
  obtain rfl := Option.some.inj (hd.symm.trans hd')
  rcases hcase with ⟨-, -, ⟨_, -, rfl⟩ | ⟨_, -, rfl⟩⟩ | ⟨-, ⟨old', hold', -, rfl⟩ | ⟨hnone, -⟩⟩
  · rfl
  · rfl
  · obtain rfl := Option.some.inj (hold.symm.trans hold')
    rw [if_neg fun (h : old = vote) => hk (h ▸ hvote), Option.isSome_map']
    exact doubleVoteProof_isSome hk hvote
  · simp [hold] at hnone

/-- A validity vote on a stored record that reports nothing leaves a vote of `v` of the kind
of the new one on the record. -/
theorem validityVote_committed (hd : T.candidateVotes.lookup d = some r) (hvote : vote.OfKind b)
    (h : validityVote ctx T v d vote = .ok (T₁, none)) :
  ∃ r' old, T₁.candidateVotes.lookup d = some r' ∧ r'.validityVotes.lookup v = some old ∧
    old.OfKind b
  := by
  rcases validityVote_eq_ok h with ⟨hn, -, -⟩ | ⟨r', hd', hcase⟩
  · simp [hd] at hn
  rcases hcase with ⟨-, -, ⟨_, -, ⟨⟩⟩ | ⟨_, -, ⟨⟩⟩⟩ | ⟨-, ⟨old, hold, rfl, hm⟩ | ⟨-, -, rfl⟩⟩
  · refine ⟨r', old, hd', hold, ?_⟩
    by_contra hk
    split_ifs at hm with heq
    · exact hk (heq ▸ hvote)
    · exact Option.isSome_iff_ne_none.mp (doubleVoteProof_isSome hk hvote)
        (Option.map_eq_none'.mp hm.symm)
  · exact ⟨_, vote, AList.lookup_insert _, AList.lookup_insert _, hvote⟩

/-- A handler that reports nothing on a statement of `v` whose digest has a record, unless
it is a candidate, leaves the table holding what the statement commits `v` to. -/
theorem dispatch_committed (hI : T.Invariant ctx) {st : SignedStatement C D S}
    (hrec : ∀ d, st.statement.votedDigest = some d → ∃ r, T.candidateVotes.lookup d = some r)
    (h : dispatch ctx T v st = .ok (T₁, none)) :
  Committed ctx T₁ v st
  := by
  obtain ⟨a, s⟩ := st
  cases a with
  | candidate c =>
    simp only [dispatch] at h
    rcases importCandidate_eq_ok h with
      ⟨-, -, ⟨⟩⟩ | ⟨-, ⟨-, -, -, -, -, -, -, ⟨⟩⟩ | ⟨s', hp, hv⟩ | ⟨hp, hv⟩⟩
    · -- a later proposal of the candidate
      obtain ⟨r, hr, -⟩ := hI.proposalVoted v _ _ hp
      refine ⟨fun c' hc => ?_, fun d hd => ?_⟩
      · obtain rfl : c = c' := Statement.candidate.inj hc
        exact ⟨s', by rw [validityVote_proposedCandidates hv, hp]⟩
      · obtain rfl : ctx.candidateDigest c = d := hd
        exact validityVote_committed hr (by trivial) hv
    · -- a first proposal: the record of its digest, stored or new, gets the vote
      obtain ⟨r, hr⟩ : ∃ r, (proposeCandidate T v (ctx.candidateGroup c) c
          (ctx.candidateDigest c) s).candidateVotes.lookup (ctx.candidateDigest c) = some r := by
        cases hT : T.candidateVotes.lookup (ctx.candidateDigest c) <;>
          simp [lookup_proposeCandidate, hT]
      refine ⟨fun c' hc => ?_, fun d hd => ?_⟩
      · obtain rfl : c = c' := Statement.candidate.inj hc
        exact ⟨s, by simp [validityVote_proposedCandidates hv]⟩
      · obtain rfl : ctx.candidateDigest c = d := hd
        exact validityVote_committed hr (by trivial) hv
  | valid d' | invalid d' =>
    obtain ⟨r, hr⟩ := hrec d' rfl
    simp only [dispatch] at h
    refine ⟨fun _ hc => (by cases hc), fun d hd => ?_⟩
    obtain rfl : d' = d := hd
    exact validityVote_committed hr (by trivial) h
  | available d' => exact ⟨fun _ hc => (by cases hc), fun _ hd => hd.elim⟩

/-- A statement of `v` that conflicts with one `v` is committed to is reported. -/
theorem dispatch_reported {st₁ st₂ : SignedStatement C D S}
    (hC : Committed ctx T v st₁) (hc : Conflicts ctx st₁ st₂)
    (h : dispatch ctx T v st₂ = .ok (T₁, m)) :
  m.isSome
  := by
  rcases hc with ⟨c₁, c₂, hc₁, hc₂, hne⟩ | ⟨d, hd₁, hd₂, hk⟩
  · -- two candidates: the stored proposal is of another digest
    obtain ⟨s₁, hp₁⟩ := hC.proposal c₁ hc₁
    simp only [dispatch, hc₂] at h
    rcases importCandidate_eq_ok h with
      ⟨-, -, rfl⟩ | ⟨-, ⟨-, -, -, -, -, -, -, rfl⟩ | ⟨s', hp, -⟩ | ⟨hp, -⟩⟩
    · rfl
    · rfl
    · cases hne (congrArg Prod.fst (Option.some.inj (hp₁.symm.trans hp)))
    · simp [hp₁] at hp
  -- two kinds on one digest: the stored vote is of the kind of the first
  obtain ⟨r, old, hr, hold, hk₁⟩ := hC.vote d hd₁
  obtain ⟨a, s⟩ := st₂
  have hk₂ : ¬old.OfKind a := fun h => hk (hk₁.sameKind_of_ofKind h)
  cases a with
  | candidate c =>
    obtain rfl : ctx.candidateDigest c = d := hd₂
    simp only [dispatch] at h
    rcases importCandidate_eq_ok h with
      ⟨-, -, rfl⟩ | ⟨-, ⟨-, -, -, -, -, -, -, rfl⟩ | ⟨-, -, hv⟩ | ⟨-, hv⟩⟩
    · rfl
    · rfl
    · exact validityVote_reported hr hold hk₂ (by trivial) hv
    · exact validityVote_reported (by simp [lookup_proposeCandidate, hr]) hold hk₂ (by trivial) hv
  | valid d' | invalid d' =>
    obtain rfl : d' = d := hd₂
    simp only [dispatch] at h
    exact validityVote_reported hr hold hk₂ (by trivial) h
  | available d' => exact hd₂.elim

end Handlers

/-! ### Runs of imports -/

section Runs

variable [DecidableEq S] {H : List (SignedStatement C D S)}

theorem run_cons (a : Action C D S) (as : List (Action C D S)) :
  run ctx T (a :: as) = (step ctx T a).bind fun T' => run ctx T' as
  := by
  simp only [run]
  cases step ctx T a <;> rfl

theorem run_append (as bs : List (Action C D S)) :
  run ctx T (as ++ bs) = (run ctx T as).bind fun T' => run ctx T' bs
  := by
  induction as generalizing T with
  | nil => rfl
  | cons a as ih =>
    rw [List.cons_append, run_cons, run_cons]
    cases step ctx T a <;> simp [ih, Except.bind]

/-- A run of imports keeps every report. -/
theorem run_imports_detected {σ : List (SignedStatement C D S)} (hv : v ∈ T.detectedMisbehavior)
    (h : run ctx T (σ.map .importStatement) = .ok T') :
  v ∈ T'.detectedMisbehavior
  := by
  induction σ generalizing T with
  | nil =>
    simp only [List.map_nil, run, Except.ok.injEq] at h
    exact h ▸ hv
  | cons st σ ih =>
    rcases hs : importStatement ctx T st with e | T₁ <;>
      simp only [List.map_cons, run, step, hs, reduceCtorEq] at h
    refine ih ?_ h
    rcases importStatement_eq_ok hs with ⟨-, rfl⟩ | ⟨w, T₂, m, -, hd, rfl⟩
    · exact hv
    · rw [mem_noteMisbehavior_detectedMisbehavior, dispatch_detectedMisbehavior hd]
      exact .inr hv

/-- Every run keeps a commitment. -/
theorem run_committed {as : List (Action C D S)} {st : SignedStatement C D S}
    (hC : Committed ctx T v st) (h : run ctx T as = .ok T') :
  Committed ctx T' v st
  := by
  induction as generalizing T with
  | nil =>
    simp only [run, Except.ok.injEq] at h
    exact h ▸ hC
  | cons a as ih =>
    rcases hs : step ctx T a with e | T₁ <;> simp only [run, hs, reduceCtorEq] at h
    exact ih (hC.mono (step_extends hs)) h

/-- Conflicting statements are caught: when a validator's two conflicting statements are
imported, in this order, from a reachable table holding the record of the first one's
digest if it is a direct vote, with any statements before, between and after them and no
drain of the reports, the run ends with the validator reported. -/
theorem conflicting_statements_reported (hT : Reachable ctx H T)
    {st₁ st₂ : SignedStatement C D S} (hs₁ : ctx.statementSigner st₁ = some v)
    (hs₂ : ctx.statementSigner st₂ = some v) (hc : Conflicts ctx st₁ st₂)
    (hrec : ∀ d, st₁.statement.votedDigest = some d → ∃ r, T.candidateVotes.lookup d = some r)
    {mid post : List (SignedStatement C D S)}
    (h : run ctx T ((st₁ :: mid ++ st₂ :: post).map .importStatement) = .ok T') :
  v ∈ T'.detectedMisbehavior
  := by
  rw [List.map_append, run_append] at h
  rcases h₁₂ : run ctx T ((st₁ :: mid).map .importStatement) with e | T₂ <;>
    simp only [h₁₂, Except.bind, reduceCtorEq] at h
  rw [List.map_cons, run_cons] at h₁₂ h
  rcases h₁ : importStatement ctx T st₁ with e | T₁ <;>
    simp only [step, h₁, Except.bind, reduceCtorEq] at h₁₂
  rcases h₃ : importStatement ctx T₂ st₂ with e | T₃ <;>
    simp only [step, h₃, Except.bind, reduceCtorEq] at h
  refine run_imports_detected ?_ h
  -- after the first statement: reported, or committed
  have hfirst : v ∈ T₁.detectedMisbehavior ∨ Committed ctx T₁ v st₁ := by
    rcases importStatement_eq_ok h₁ with ⟨hn, -⟩ | ⟨w, T₀, m, hw, hd, rfl⟩
    · simp [hs₁] at hn
    obtain rfl := Option.some.inj (hw.symm.trans hs₁)
    cases m with
    | none => exact .inr (dispatch_committed hT.invariant hrec hd)
    | some _ => exact .inl ((mem_noteMisbehavior_detectedMisbehavior _).mpr (.inl ⟨rfl, rfl⟩))
  -- before the second: still reported, or still committed
  have hT₂ : Reachable ctx _ T₂ := (hT.importStatement st₁ h₁).after_run h₁₂
  rcases importStatement_eq_ok h₃ with ⟨hn, -⟩ | ⟨w, T₀, m, hw, hd, rfl⟩
  · simp [hs₂] at hn
  obtain rfl := Option.some.inj (hw.symm.trans hs₂)
  rw [mem_noteMisbehavior_detectedMisbehavior, dispatch_detectedMisbehavior hd]
  rcases hfirst with hv | hC
  · exact .inr (run_imports_detected hv h₁₂)
  · exact .inl ⟨rfl, dispatch_reported (run_committed hC h₁₂) hc hd⟩

/-- Validator 1 of group 2 proposes the candidate of digest 100, then calls it invalid. -/
theorem conflicting_statements_reported_issued_invalid :
  ∃ T', run (testContext (AList.insert 1 (2, 455) ∅)) create
      (((⟨.candidate (toLex (2, 100)), 1⟩ : SignedStatement (ℕ ×ₗ ℕ) ℕ ℕ) :: [] ++
        (⟨.invalid 100, 1⟩ : SignedStatement (ℕ ×ₗ ℕ) ℕ ℕ) :: []).map .importStatement) =
        .ok T' ∧
    1 ∈ T'.detectedMisbehavior
  := have h : run (testContext (AList.insert 1 (2, 455) ∅)) create
        (((⟨.candidate (toLex (2, 100)), 1⟩ : SignedStatement (ℕ ×ₗ ℕ) ℕ ℕ) :: [] ++
          (⟨.invalid 100, 1⟩ : SignedStatement (ℕ ×ₗ ℕ) ℕ ℕ) :: []).map .importStatement) =
        .ok _ := rfl
    ⟨_, h, conflicting_statements_reported .create (by rfl) (by rfl)
      (.inr ⟨100, by rfl, by rfl, by exact id⟩) (fun _ h => by cases h) h⟩

/-- The record must exist when the first vote comes: validator 1 votes `Valid(100)` before
validator 2 proposes the candidate of digest 100, then votes `Invalid(100)`; the first
vote is dropped, and no one is reported. -/
example :
  (run (testContext (AList.insert 1 (2, 455) (AList.insert 2 (2, 455) ∅))) create
    ([⟨.valid 100, 1⟩, ⟨.candidate (toLex (2, 100)), 2⟩, ⟨.invalid 100, 1⟩].map
      .importStatement)).map (·.detectedMisbehavior.keys) = .ok []
  := rfl

end Runs

end CandidateAgreement
