import Mathlib
import Lotus.Chain.Messagepool.Selection

/-!
# The loops that pack chains: tail packing and republishing (`selection.go`, `repub.go`)

Three loops of the message pool go back over a chain they could not take whole: the tail loop of
`selectMessagesGreedy` and `selectPriorityMessages` (`tailPass`), the tail loop of
`selectMessagesOptimal` (`optTailPass`), and the loop of `republishPendingMessages`
(`repubPass`).  None of them moves forward at every pass: a pass may trim the chain it stopped at
and look at it again, at the same index, after a push-down that changes which chain sits there.
Each is given as the body of a `for` loop (`Run.loopFuel`), one pass at a time.

**Why they end.**  Count every chain still in play, valid and not merged, with one more than its
number of messages (`liveWeight`).  Trimming, invalidating and merging never raise that count, and
the push-downs only reorder the chains.  A pass that goes on because a chain does not fit trims
that chain (optimal selection), or the next pass does (greedy selection, `AtEdge`); the chain is
over the gas it is trimmed to, so it loses a message or becomes invalid, and the count goes down
(`liveWeight_trimAt_lt`).  An invalidated chain leaves the count too.  The republish loop also
moves on by one chain at a time, so its count is weighed against the chains left to visit.  Every
loop therefore ends, from every state (`selection_loops_terminate`).
-/

namespace Lotus

namespace MessagePool

section Weight

variable {P : Type}

/-- A chain in play counts one more than its messages; `q` says which chain identities are still
in play besides being valid (not merged, for optimal selection). -/
def chainWeight (q : ℕ → Bool) (c : MsgChain P) : ℕ :=
  if c.valid && q c.id then c.msgs.length + 1 else 0

/-- The weight of the chains in play. -/
def liveWeight (q : ℕ → Bool) (chains : List (MsgChain P)) : ℕ :=
  (chains.map (chainWeight q)).sum

variable {q : ℕ → Bool}

lemma liveWeight_cons (c : MsgChain P) (chains : List (MsgChain P)) :
    liveWeight q (c :: chains) = chainWeight q c + liveWeight q chains := by
  simp [liveWeight]

lemma liveWeight_perm {l₁ l₂ : List (MsgChain P)} (h : l₁.Perm l₂) :
    liveWeight q l₁ = liveWeight q l₂ :=
  (h.map _).sum_eq

/-- Changing each chain to one that weighs no more, counted by `q'`, weighs no more. -/
lemma liveWeight_map_le {q' : ℕ → Bool} {f : MsgChain P → MsgChain P}
    (hf : ∀ c, chainWeight q' (f c) ≤ chainWeight q c) :
    ∀ chains : List (MsgChain P), liveWeight q' (chains.map f) ≤ liveWeight q chains
  | [] => le_rfl
  | c :: chains => by
    rw [List.map_cons, liveWeight_cons, liveWeight_cons]
    have := hf c
    have := liveWeight_map_le hf chains
    omega

/-- And changing one chain to one that weighs less weighs less. -/
lemma liveWeight_map_lt {f : MsgChain P → MsgChain P}
    (hf : ∀ c, chainWeight q (f c) ≤ chainWeight q c) {c : MsgChain P}
    (hlt : chainWeight q (f c) < chainWeight q c) :
    ∀ {chains : List (MsgChain P)}, c ∈ chains → liveWeight q (chains.map f) < liveWeight q chains
  | d :: chains, hc => by
    rw [List.map_cons, liveWeight_cons, liveWeight_cons]
    rcases List.mem_cons.mp hc with rfl | hc
    · have := liveWeight_map_le hf chains
      omega
    · have := hf d
      have := liveWeight_map_lt hf hlt hc
      omega

/-- Setting the chain at `idx` moves the weight by the difference of the two chains. -/
lemma liveWeight_set : ∀ {chains : List (MsgChain P)} {idx : ℕ} {c : MsgChain P},
    chains[idx]? = some c → ∀ x : MsgChain P,
      liveWeight q (chains.set idx x) + chainWeight q c = liveWeight q chains + chainWeight q x
  | [], _, _, h, _ => by simp at h
  | d :: rest, 0, c, h, x => by
    simp only [List.getElem?_cons_zero, Option.some.injEq] at h
    subst h
    simp only [List.set_cons_zero, liveWeight_cons]
    omega
  | d :: rest, i + 1, c, h, x => by
    simp only [List.getElem?_cons_succ] at h
    have := liveWeight_set h x
    simp only [List.set_cons_succ, liveWeight_cons]
    omega

lemma length_invalidate (fuel : ℕ) :
    ∀ (chains : List (MsgChain P)) (id : ℕ), (invalidate fuel chains id).length = chains.length := by
  induction fuel with
  | zero => intro chains id; rfl
  | succ fuel ih =>
    intro chains id
    unfold invalidate
    split
    · rfl
    · split
      · exact List.length_map _
      · exact (ih _ _).trans (List.length_map _)

lemma chainWeight_invalidated (d : MsgChain P) :
    chainWeight q { d with msgs := [], valid := false, next := none } = 0 := by
  simp [chainWeight]

lemma liveWeight_invalidate_le (fuel : ℕ) :
    ∀ (chains : List (MsgChain P)) (id : ℕ), liveWeight q (invalidate fuel chains id) ≤ liveWeight q chains := by
  induction fuel with
  | zero => intro chains id; exact le_rfl
  | succ fuel ih =>
    intro chains id
    -- one chain's invalidation, then the rest of the `next` links
    have hmap : liveWeight q (chains.map fun d : MsgChain P =>
        if d.id = id then { d with msgs := [], valid := false, next := none } else d) ≤
          liveWeight q chains := by
      refine liveWeight_map_le (fun d => ?_) chains
      split_ifs
      · rw [chainWeight_invalidated]
        exact Nat.zero_le _
      · exact le_rfl
    unfold invalidate
    split
    · exact le_rfl
    · split
      · exact hmap
      · exact (ih _ _).trans hmap

/-- Invalidating a chain in play takes its weight out. -/
lemma liveWeight_invalidate_lt {fuel : ℕ} {chains : List (MsgChain P)} {c : MsgChain P}
    (hc : c ∈ chains) (hlive : c.valid && q c.id) :
    liveWeight q (invalidate (fuel + 1) chains c.id) < liveWeight q chains := by
  have hpos : chainWeight q c = c.msgs.length + 1 := if_pos hlive
  set f : MsgChain P → MsgChain P := fun d =>
    if d.id = c.id then { d with msgs := [], valid := false, next := none } else d with hf
  -- the map takes `c` out of play and no chain gains weight
  have hmap : liveWeight q (chains.map f) < liveWeight q chains := by
    refine liveWeight_map_lt (fun d => ?_) ?_ hc
    · simp only [hf]
      split_ifs
      · rw [chainWeight_invalidated]
        exact Nat.zero_le _
      · exact le_rfl
    · simp only [hf, if_pos rfl, chainWeight_invalidated, hpos]
      omega
  have hfind : (chains.find? (·.id = c.id)).isSome := by
    rw [List.find?_isSome]
    exact ⟨c, hc, by simp⟩
  unfold invalidate
  obtain ⟨c', hc'⟩ := Option.isSome_iff_exists.1 hfind
  rw [hc']
  dsimp only
  split
  · exact hmap
  · exact (liveWeight_invalidate_le _ _ _).trans_lt hmap

/-- Pushing a chain down past every chain it does not come before by `lt`: the loop after a trim,
with `Before` in greedy selection and republishing and `BeforeEffective` in optimal selection. -/
def bubbleBy (lt : MsgChain P → MsgChain P → Bool) (c : MsgChain P) :
    List (MsgChain P) → List (MsgChain P)
  | [] => [c]
  | d :: rest => if lt c d then c :: d :: rest else d :: bubbleBy lt c rest

/-- The push-down of the chain at `last` by `lt`. -/
def pushDownBy (lt : MsgChain P → MsgChain P → Bool) (chains : List (MsgChain P)) (last : ℕ) :
    List (MsgChain P) :=
  match chains.drop last with
  | [] => chains
  | c :: rest => chains.take last ++ bubbleBy lt c rest

lemma bubbleBy_perm (lt : MsgChain P → MsgChain P → Bool) (c : MsgChain P) :
    ∀ rest : List (MsgChain P), (bubbleBy lt c rest).Perm (c :: rest)
  | [] => List.Perm.refl _
  | d :: rest => by
    unfold bubbleBy
    split
    · exact List.Perm.refl _
    · exact ((bubbleBy_perm lt c rest).cons d).trans (List.Perm.swap c d rest)

lemma pushDownBy_perm (lt : MsgChain P → MsgChain P → Bool) (chains : List (MsgChain P)) (last : ℕ) :
    (pushDownBy lt chains last).Perm chains := by
  unfold pushDownBy
  split
  · exact List.Perm.refl _
  · rename_i c rest hdrop
    conv_rhs => rw [← List.take_append_drop last chains, hdrop]
    exact (bubbleBy_perm lt c rest).append_left _

section Trim

variable [LinearOrder P]

lemma bubble_eq_bubbleBy (c : MsgChain P) :
    ∀ rest : List (MsgChain P), bubble c rest = bubbleBy MsgChain.before c rest
  | [] => rfl
  | d :: rest => by
    rw [bubble, bubbleBy, bubble_eq_bubbleBy c rest]

/-- Greedy selection's push-down is the one by `Before`. -/
lemma pushDown_eq_pushDownBy (chains : List (MsgChain P)) (last : ℕ) :
    pushDown chains last = pushDownBy MsgChain.before chains last := by
  unfold pushDown pushDownBy
  cases chains.drop last with
  | nil => rfl
  | cons c rest => simp only [bubble_eq_bubbleBy]

variable [Zero P] (env : SelectEnv P)

/-- The trim loop keeps at most the messages it was given, and drops one when the chain is over
the limit. -/
lemma trimLoop_length_le (g : ℤ) :
    ∀ (rev : List SignedMessage) (reward limit : ℤ) (perf : P),
      (trimLoop env g rev reward limit perf).1.length ≤ rev.length
  | [], _, _, _ => le_rfl
  | m :: rest, reward, limit, perf => by
    unfold trimLoop
    split
    · exact (trimLoop_length_le g rest _ _ _).trans (Nat.le_succ _)
    · exact le_rfl

lemma trimLoop_length_lt {g : ℤ} (m : SignedMessage) (rest : List SignedMessage) (reward : ℤ)
    {limit : ℤ} (perf : P) (hover : g < limit) :
    (trimLoop env g (m :: rest) reward limit perf).1.length < (m :: rest).length := by
  unfold trimLoop
  rw [if_pos (.inl hover)]
  exact Nat.lt_succ_of_le (trimLoop_length_le env g rest _ _ _)

@[simp] lemma trim_id (c : MsgChain P) (g : ℤ) : (trim env c g).id = c.id := by
  unfold trim
  split <;> rfl

lemma chainWeight_trim_le (c : MsgChain P) (g : ℤ) : chainWeight q (trim env c g) ≤ chainWeight q c := by
  have hlen := trimLoop_length_le env g c.msgs.reverse c.gasReward c.gasLimit c.gasPerf
  unfold chainWeight trim
  split
  · simp
  · rename_i kept reward limit perf _ heq
    rw [heq] at hlen
    simp only [List.length_reverse] at hlen ⊢
    split_ifs <;> omega

/-- **Trimming a chain that is over the gas drops a message or the chain.** -/
lemma chainWeight_trim_lt {c : MsgChain P} {g : ℤ} (hlive : c.valid && q c.id) (hover : g < c.gasLimit) :
    chainWeight q (trim env c g) < chainWeight q c := by
  have hpos : chainWeight q c = c.msgs.length + 1 := if_pos hlive
  rw [hpos]
  rcases hrev : c.msgs.reverse with _ | ⟨m, rest⟩
  · -- no message: the trimmed chain is invalid
    unfold chainWeight trim
    rw [hrev]
    simp [trimLoop]
  · have hlt := trimLoop_length_lt env m rest c.gasReward c.gasPerf hover
    have hlen : (m :: rest).length = c.msgs.length := by rw [← hrev, List.length_reverse]
    unfold chainWeight trim
    rw [hrev]
    split
    · simp
    · rename_i kept reward limit perf _ heq
      rw [heq] at hlt
      dsimp only at hlt
      simp only [List.length_reverse]
      split_ifs
      omega

/-- `trimAt` on a chain that is there and has no next chain: the trimmed chain set in its
place. -/
lemma trimAt_of_next_none {chains : List (MsgChain P)} {idx : ℕ} {c : MsgChain P}
    (hc : chains[idx]? = some c) (hn : c.next = none) (g : ℤ) :
    trimAt env chains idx g = chains.set idx { trim env c g with next := none } := by
  simp only [trimAt, hc, hn]

/-- `trimAt` on a chain that is there and has a next chain: the trimmed chain set in its place,
and the chains from the next one on invalidated. -/
lemma trimAt_of_next_some {chains : List (MsgChain P)} {idx : ℕ} {c : MsgChain P} {j : ℕ}
    (hc : chains[idx]? = some c) (hn : c.next = some j) (g : ℤ) :
    trimAt env chains idx g = invalidate (chains.set idx { trim env c g with next := none }).length
      (chains.set idx { trim env c g with next := none }) j := by
  simp only [trimAt, hc, hn]

lemma length_trimAt (chains : List (MsgChain P)) (idx : ℕ) (g : ℤ) :
    (trimAt env chains idx g).length = chains.length := by
  unfold trimAt
  split
  · rfl
  · dsimp only
    split
    · exact List.length_set
    · exact (length_invalidate _ _ _).trans List.length_set

/-- What trimming does to the weight: that of the trimmed chain, or less. -/
lemma liveWeight_trimAt_add {chains : List (MsgChain P)} {idx : ℕ} {c : MsgChain P}
    (hc : chains[idx]? = some c) (g : ℤ) :
    liveWeight q (trimAt env chains idx g) + chainWeight q c ≤
      liveWeight q chains + chainWeight q (trim env c g) := by
  have hset := liveWeight_set (q := q) hc { trim env c g with next := none }
  have hnext : chainWeight q { trim env c g with next := none } = chainWeight q (trim env c g) := rfl
  cases hn : c.next with
  | none =>
    rw [trimAt_of_next_none env hc hn]
    omega
  | some j =>
    have := liveWeight_invalidate_le (q := q) (chains.set idx { trim env c g with next := none }).length
      (chains.set idx { trim env c g with next := none }) j
    rw [trimAt_of_next_some env hc hn]
    omega

lemma liveWeight_trimAt_le (chains : List (MsgChain P)) (idx : ℕ) (g : ℤ) :
    liveWeight q (trimAt env chains idx g) ≤ liveWeight q chains := by
  cases hc : chains[idx]? with
  | none => simp only [trimAt, hc, le_refl]
  | some c =>
    have := liveWeight_trimAt_add (q := q) env hc g
    have := chainWeight_trim_le (q := q) env c g
    omega

/-- **Trimming the chain at `idx`, over the gas, lowers the weight.** -/
lemma liveWeight_trimAt_lt {chains : List (MsgChain P)} {idx : ℕ} {c : MsgChain P} {g : ℤ}
    (hc : chains[idx]? = some c) (hlive : c.valid && q c.id) (hover : g < c.gasLimit) :
    liveWeight q (trimAt env chains idx g) < liveWeight q chains := by
  have := liveWeight_trimAt_add (q := q) env hc g
  have := chainWeight_trim_lt (q := q) env hlive hover
  omega

omit [Zero P] in
lemma pushDown_perm (chains : List (MsgChain P)) (last : ℕ) : (pushDown chains last).Perm chains := by
  rw [pushDown_eq_pushDownBy]
  exact pushDownBy_perm _ _ _

lemma liveWeight_trimAndPush_le (chains : List (MsgChain P)) (last : ℕ) (g : ℤ) :
    liveWeight q (trimAndPush env chains last g) ≤ liveWeight q chains := by
  unfold trimAndPush
  dsimp only
  split
  · rw [liveWeight_perm (pushDown_perm _ _)]
    exact liveWeight_trimAt_le env _ _ _
  · exact liveWeight_trimAt_le env _ _ _

lemma liveWeight_trimAndPush_lt {chains : List (MsgChain P)} {last : ℕ} {c : MsgChain P} {g : ℤ}
    (hc : chains[last]? = some c) (hlive : c.valid && q c.id) (hover : g < c.gasLimit) :
    liveWeight q (trimAndPush env chains last g) < liveWeight q chains := by
  unfold trimAndPush
  dsimp only
  split
  · rw [liveWeight_perm (pushDown_perm _ _)]
    exact liveWeight_trimAt_lt env hc hlive hover
  · exact liveWeight_trimAt_lt env hc hlive hover

end Trim

end Weight

/-! ## The tail loop of greedy selection -/

section Greedy

variable {P : Type} [LinearOrder P] [Zero P] (env : SelectEnv P)

/-- The variables of the tail loop: the chains, the gas left, the messages selected and `last`. -/
structure TailState (P : Type) where
  chains : List (MsgChain P)
  gasLimit : ℤ
  result : List SignedMessage
  last : ℕ

/-- One pass of the tail loop of `selectMessagesGreedy` and `selectPriorityMessages`: trim the
chain at `last`, push it down, and scan on from it; go on from the chain the scan cannot fit, or
leave with the messages and the gas left. -/
def tailPass (s : TailState P) : TailState P ⊕ (List SignedMessage × ℤ) :=
  if s.gasLimit ≥ minGas ∧ s.last < s.chains.length then
    let chains := trimAndPush env s.chains s.last s.gasLimit
    match scan (chains.drop s.last) 0 s.gasLimit s.result with
    | (.trimAt i, gasLimit', result') => .inl ⟨chains, gasLimit', result', s.last + i⟩
    | (_, gasLimit', result') => .inr (result', gasLimit')
  else .inr (s.result, s.gasLimit)

/-- A scan stops to trim only at a valid chain over the gas it has left. -/
lemma scan_trimAt : ∀ (l : List (MsgChain P)) (i : ℕ) (g : ℤ) (r : List SignedMessage) {j : ℕ}
    {g' : ℤ} {r' : List SignedMessage}, scan l i g r = (.trimAt j, g', r') →
      ∃ c, l[j - i]? = some c ∧ i ≤ j ∧ c.valid = true ∧ g' < c.gasLimit
  | [], _, _, _, _, _, _, h => by cases h
  | c :: rest, i, g, r, j, g', r', h => by
    unfold scan at h
    split_ifs at h with hinv hneg hfit
    · obtain ⟨d, hd, hij, hv, hover⟩ := scan_trimAt rest (i + 1) g r h
      refine ⟨d, ?_, by omega, hv, hover⟩
      rw [show j - i = j - (i + 1) + 1 by omega]
      exact hd
    · cases h
    · obtain ⟨d, hd, hij, hv, hover⟩ := scan_trimAt rest (i + 1) _ _ h
      refine ⟨d, ?_, by omega, hv, hover⟩
      rw [show j - i = j - (i + 1) + 1 by omega]
      exact hd
    · cases h
      refine ⟨c, by simp, le_rfl, by simpa using hinv, lt_of_not_ge hfit⟩

/-- The chain at `last` is valid and over the gas left, as when the merge loop or a scan stops
at it. -/
def AtEdge (s : TailState P) : Prop :=
  ∀ c, s.chains[s.last]? = some c → c.valid = true ∧ s.gasLimit < c.gasLimit

/-- **A pass that goes on stops at the edge, and from the edge it lowers the weight.** -/
lemma tailPass_inl {s s' : TailState P} (h : tailPass env s = .inl s') :
    AtEdge s' ∧ liveWeight (fun _ => true) s'.chains ≤ liveWeight (fun _ => true) s.chains ∧
      (AtEdge s → liveWeight (fun _ => true) s'.chains < liveWeight (fun _ => true) s.chains) := by
  unfold tailPass at h
  split_ifs at h with hgo
  dsimp only at h
  rcases hres : scan ((trimAndPush env s.chains s.last s.gasLimit).drop s.last) 0 s.gasLimit
      s.result with ⟨e, g', r'⟩
  rw [hres] at h
  cases e with
  | done => cases h
  | negative => cases h
  | trimAt i => ?_
  cases h
  obtain ⟨c, hc, -, hv, hover⟩ := scan_trimAt _ _ _ _ hres
  refine ⟨fun d hd => ?_, liveWeight_trimAndPush_le env _ _ _, fun hedge => ?_⟩
  · rw [List.getElem?_drop, Nat.sub_zero] at hc
    rw [hc] at hd
    cases hd
    exact ⟨hv, hover⟩
  · obtain ⟨c₀, hc₀⟩ : ∃ c, s.chains[s.last]? = some c := ⟨_, List.getElem?_eq_getElem hgo.2⟩
    obtain ⟨hv₀, hover₀⟩ := hedge c₀ hc₀
    exact liveWeight_trimAndPush_lt env hc₀ (by simp [hv₀]) hover₀

/-- **The greedy tail loop ends**: from every state, within two passes more than the weight of
its chains. -/
theorem tailPass_ends (s : TailState P) :
    ∃ x, Run.loopFuel (tailPass env) (liveWeight (fun _ => true) s.chains + 2) s = some x := by
  cases hb : tailPass env s with
  | inr x => exact ⟨x, Run.loopFuel_succ_of_inr hb⟩
  | inl s' =>
    obtain ⟨hedge, hle, -⟩ := tailPass_inl env hb
    -- after the first pass every pass starts at the edge
    have hstep : ∀ t t', AtEdge t → tailPass env t = .inl t' →
        AtEdge t' ∧ liveWeight (fun _ => true) t'.chains < liveWeight (fun _ => true) t.chains :=
      fun t t' ht h => ⟨(tailPass_inl env h).1, (tailPass_inl env h).2.2 ht⟩
    obtain ⟨x, hx⟩ := Run.loopFuel_of_measure (fun t => liveWeight (fun _ => true) t.chains) hstep
      (liveWeight (fun _ => true) s.chains + 1) s' hedge (by omega)
    exact ⟨x, (Run.loopFuel_succ_of_inl hb).trans hx⟩

end Greedy

/-! ## The republish loop -/

section Repub

variable {P : Type} [LinearOrder P] [Zero P] (env : SelectEnv P)

/-- `repubMsgLimit`. -/
def repubMsgLimit : ℕ := 30

/-- The variables of `republishPendingMessages`' loop: the chains, the gas left, the messages to
republish and `i`. -/
structure RepubState (P : Type) where
  chains : List (MsgChain P)
  gasLimit : ℤ
  msgs : List SignedMessage
  i : ℕ

/-- The loop over the messages of a chain that fits: each is taken with its gas while its fee cap
reaches `baseFeeLowerBound`.  Whether every message was, the gas left and the messages. -/
def takeChain (baseFeeLowerBound : ℤ) :
    List SignedMessage → ℤ → List SignedMessage → Bool × ℤ × List SignedMessage
  | [], gasLimit, msgs => (true, gasLimit, msgs)
  | m :: rest, gasLimit, msgs =>
    if m.message.gasFeeCap < baseFeeLowerBound then (false, gasLimit, msgs)
    else takeChain baseFeeLowerBound rest (gasLimit - m.message.gasLimit) (msgs ++ [m])

/-- One pass of the loop of `republishPendingMessages`, `env.baseFee` being the base fee `Trim`
reads: stop past `repubMsgLimit` messages or without gas for a message; skip an invalid chain;
take a chain that fits, unless a message's fee cap is below `baseFeeLowerBound`, which invalidates
the chain and keeps what was taken of it; and trim a chain that does not fit, then push it
down. -/
def repubPass (baseFeeLowerBound : ℤ) (s : RepubState P) : RepubState P ⊕ List SignedMessage :=
  match s.chains[s.i]? with
  | none => .inr s.msgs
  | some chain =>
    if s.msgs.length > repubMsgLimit then .inr s.msgs
    else if s.gasLimit ≤ minGas then .inr s.msgs
    else if !chain.valid then .inl { s with i := s.i + 1 }
    else if chain.gasLimit ≤ s.gasLimit then
      match takeChain baseFeeLowerBound chain.msgs s.gasLimit s.msgs with
      | (true, gasLimit, msgs) => .inl ⟨s.chains, gasLimit, msgs, s.i + 1⟩
      | (false, gasLimit, msgs) =>
        .inl ⟨invalidate s.chains.length s.chains chain.id, gasLimit, msgs, s.i⟩
    else .inl { s with chains := pushDown (trimAt env s.chains s.i s.gasLimit) s.i }

/-- The weight of the chains in play, before the chains left to visit. -/
def repubMeasure (s : RepubState P) : ℕ :=
  liveWeight (fun _ => true) s.chains * (s.chains.length + 1) + (s.chains.length - s.i)

omit [LinearOrder P] [Zero P] in
/-- Less weight, whatever the index. -/
lemma lex_lt_of_lt {w w' n n' L : ℕ} (hw : w' < w) (hn : n ≤ L) :
    w' * (L + 1) + n < w * (L + 1) + n' := by
  have h := Nat.mul_le_mul_right (L + 1) (Nat.succ_le_of_lt hw)
  rw [Nat.succ_mul] at h
  omega

omit [LinearOrder P] [Zero P] in
/-- No more weight, and one chain fewer to visit. -/
lemma lex_lt_of_le {w w' n n' L : ℕ} (hw : w' ≤ w) (hn : n < n') :
    w' * (L + 1) + n < w * (L + 1) + n' := by
  have h := Nat.mul_le_mul_right (L + 1) hw
  omega

/-- **Every pass of the republish loop that goes on lowers its measure.** -/
lemma repubMeasure_lt {lb : ℤ} {s s' : RepubState P} (h : repubPass env lb s = .inl s') :
    repubMeasure s' < repubMeasure s := by
  unfold repubPass at h
  split at h
  · cases h
  rename_i chain hc
  have hlt : s.i < s.chains.length := (List.getElem?_eq_some_iff.1 hc).1
  have hmem : chain ∈ s.chains := List.mem_of_getElem? hc
  split_ifs at h with hmsgs hgas hinv hfit
  · -- an invalid chain: on to the next one
    cases h
    exact lex_lt_of_le le_rfl (by dsimp only; omega)
  · simp only [Bool.not_eq_true'] at hinv
    have hlive : (chain.valid && (fun _ => true) chain.id) = true := by simp [hinv]
    rcases htake : takeChain lb chain.msgs s.gasLimit s.msgs with ⟨_ | _, g, msgs⟩ <;>
      rw [htake] at h <;> cases h
    · -- a fee cap below the bound: the chain is invalidated, and visited again
      obtain ⟨L, hL⟩ : ∃ L, s.chains.length = L + 1 := ⟨s.chains.length - 1, by omega⟩
      have hw := @liveWeight_invalidate_lt _ (fun _ => true) L _ _ hmem hlive
      rw [← hL] at hw
      unfold repubMeasure
      rw [length_invalidate]
      exact lex_lt_of_lt hw (by omega)
    · -- the chain is taken: on to the next one
      exact lex_lt_of_le le_rfl (by dsimp only; omega)
  · -- a chain over the gas: trimmed, pushed down, and visited again
    simp only [Bool.not_eq_true'] at hinv
    cases h
    have hw := liveWeight_trimAt_lt (q := fun _ => true) env hc (by simp [hinv]) (lt_of_not_ge hfit)
    unfold repubMeasure
    dsimp only
    rw [liveWeight_perm (pushDown_perm _ _), (pushDown_perm _ _).length_eq, length_trimAt]
    exact lex_lt_of_lt hw (by omega)

/-- **The republish loop ends** from every state. -/
theorem repubPass_ends (lb : ℤ) (s : RepubState P) :
    ∃ x, Run.loopFuel (repubPass env lb) (repubMeasure s + 1) s = some x :=
  Run.loopFuel_of_measure (I := fun _ => True) repubMeasure
    (fun _ _ _ h => ⟨trivial, repubMeasure_lt env h⟩) _ s trivial (Nat.lt_succ_self _)

end Repub

/-! ## The tail loop of optimal selection -/

section Optimal

variable {P : Type} [LinearOrder P] [Zero P]

/-- What optimal selection reads beside greedy selection: the float arithmetic of `setEffPerf`,
which gives the effective performance of a chain from its performance, its `bp` weight and its
gas limit, averaged with the chain before it, given by its effective performance and gas
limit. -/
structure OptEnv (P : Type) extends SelectEnv P where
  setEffPerf : P → P → ℤ → Option (P × ℤ) → P

/-- What optimal selection keeps on a chain beside greedy selection's fields: whether it is
merged, its `bp` weight and its effective performance. -/
structure OptFields (P : Type) where
  merged : Bool
  bp : P
  effPerf : P

/-- The variables of the tail loop of `selectMessagesOptimal`: the chains, the optimal fields of
each by its identity, the gas left, the messages selected and `last`. -/
structure OptState (P : Type) where
  chains : List (MsgChain P)
  opt : ℕ → OptFields P
  gasLimit : ℤ
  result : List SignedMessage
  last : ℕ

variable (env : OptEnv P)

/-- The effective performance `Trim` leaves on a chain of weight `bp` below `prev`: the loop of
`trimLoop`, setting it to `0` when the gas limit falls to `0` or below, and otherwise, when `bp`
is not `0`, computing it afresh from the new performance. -/
def trimEffPerf (bp : P) (prev : Option (P × ℤ)) (gasLimit : ℤ) :
    List SignedMessage → ℤ → ℤ → P → P → P
  | [], _, _, _, effPerf => effPerf
  | m :: rest, reward, limit, perf, effPerf =>
    if limit > gasLimit ∨ perf < 0 then
      let reward := reward - getGasReward env.toSelectEnv m
      let limit := limit - m.message.gasLimit
      if limit > 0 then
        let perf := env.gasPerf reward limit
        trimEffPerf bp prev gasLimit rest reward limit perf
          (if bp ≠ 0 then env.setEffPerf perf bp limit prev else effPerf)
      else trimEffPerf bp prev gasLimit rest reward limit 0 0
    else effPerf

/-- The effective performance and gas limit of the chain `prev` points to. -/
def prevOf (chains : List (MsgChain P)) (opt : ℕ → OptFields P) (c : MsgChain P) :
    Option (P × ℤ) :=
  c.prev.bind fun j => (chains.find? (·.id = j)).map fun p => ((opt p.id).effPerf, p.gasLimit)

/-- `chains[idx].Trim(gasLimit)` in optimal selection: greedy selection's `trimAt`, with the
chain's effective performance brought up to date. -/
def optTrimAt (chains : List (MsgChain P)) (opt : ℕ → OptFields P) (idx : ℕ) (gasLimit : ℤ) :
    List (MsgChain P) × (ℕ → OptFields P) :=
  match chains[idx]? with
  | none => (chains, opt)
  | some c =>
    let f := opt c.id
    (trimAt env.toSelectEnv chains idx gasLimit,
      Function.update opt c.id
        { f with effPerf := (trimEffPerf env f.bp (prevOf chains opt c) gasLimit c.msgs.reverse
            c.gasReward c.gasLimit c.gasPerf f.effPerf) })

/-- `msgChain.BeforeEffective`: merged chains first, then chains that do not perform below zero,
then by effective performance, performance and reward. -/
def beforeEffective (opt : ℕ → OptFields P) (c d : MsgChain P) : Bool :=
  ((opt c.id).merged && !(opt d.id).merged) || (decide (c.gasPerf ≥ 0) && decide (d.gasPerf < 0)) ||
    decide ((opt c.id).effPerf > (opt d.id).effPerf) ||
    (decide ((opt c.id).effPerf = (opt d.id).effPerf) && decide (c.gasPerf > d.gasPerf)) ||
    (decide ((opt c.id).effPerf = (opt d.id).effPerf) && decide (c.gasPerf = d.gasPerf) &&
      decide (c.gasReward > d.gasReward))

/-- The chains before a chain that are not merged yet, nearest first, following `prev` from the
chain `prev` names. -/
def chainDeps (chains : List (MsgChain P)) (opt : ℕ → OptFields P) :
    ℕ → Option ℕ → List (MsgChain P)
  | 0, _ => []
  | _, none => []
  | fuel + 1, some j =>
    match chains.find? (·.id = j) with
    | none => []
    | some p => if (opt p.id).merged then [] else p :: chainDeps chains opt fuel p.prev

/-- `merged = true` on each chain of `cs`. -/
def markMerged (opt : ℕ → OptFields P) (cs : List (MsgChain P)) : ℕ → OptFields P :=
  cs.foldl (fun opt d => Function.update opt d.id { opt d.id with merged := true }) opt

/-- How a scan of the optimal tail loop ends. -/
inductive OptScanEnd
  /-- Every chain was looked at. -/
  | done
  /-- A chain performs below zero. -/
  | negative
  /-- The chain this many places on, of this identity, cannot fit with its dependencies. -/
  | invalidate (i : ℕ) (id : ℕ)
  /-- The chain this many places on is to be trimmed to this gas. -/
  | trim (i : ℕ) (gasLimit : ℤ)

/-- The inner loop of the optimal tail loop over `chains[last:]`: skip invalid and merged chains,
stop at a chain that performs below zero, take each chain that fits with its dependencies, and
stop at one that does not, to invalidate it if its dependencies alone do not fit, or else to trim
it to the gas they leave. -/
def optScan (chains : List (MsgChain P)) :
    List (MsgChain P) → ℕ → (ℕ → OptFields P) → ℤ → List SignedMessage →
      OptScanEnd × (ℕ → OptFields P) × ℤ × List SignedMessage
  | [], _, opt, gasLimit, result => (.done, opt, gasLimit, result)
  | c :: rest, i, opt, gasLimit, result =>
    if !c.valid then optScan chains rest (i + 1) opt gasLimit result
    else if (opt c.id).merged then optScan chains rest (i + 1) opt gasLimit result
    else if c.gasPerf < 0 then (.negative, opt, gasLimit, result)
    else
      let deps := chainDeps chains opt chains.length c.prev
      let depGasLimit := (deps.map (·.gasLimit)).sum
      let chainGasLimit := c.gasLimit + depGasLimit
      if chainGasLimit ≤ gasLimit then
        optScan chains rest (i + 1) (markMerged opt (deps ++ [c])) (gasLimit - chainGasLimit)
          (result ++ deps.reverse.flatMap (·.msgs) ++ c.msgs)
      else if depGasLimit > gasLimit then (.invalidate i c.id, opt, gasLimit, result)
      else (.trim i (gasLimit - depGasLimit), opt, gasLimit, result)

/-- The start of a pass: the chain at `last` trimmed to the gas left if it is over it. -/
def trimIfOver (chains : List (MsgChain P)) (opt : ℕ → OptFields P) (last : ℕ) (gasLimit : ℤ) :
    List (MsgChain P) × (ℕ → OptFields P) :=
  match chains[last]? with
  | some c => if c.gasLimit > gasLimit then optTrimAt env chains opt last gasLimit else (chains, opt)
  | none => (chains, opt)

/-- Then the chain at `last` pushed down by `BeforeEffective`, if it is still valid. -/
def pushIfValid (opt : ℕ → OptFields P) (chains : List (MsgChain P)) (last : ℕ) :
    List (MsgChain P) :=
  if (chains[last]?.map (·.valid)).getD false then pushDownBy (beforeEffective opt) chains last
  else chains

/-- One pass of the tail loop of `selectMessagesOptimal`: trim the chain at `last` if it is over
the gas, push it down if it is still valid, and scan on from it; go on after invalidating or
trimming the chain the scan stops at, or leave with the messages and the gas left. -/
def optTailPass (s : OptState P) : OptState P ⊕ (List SignedMessage × ℤ) :=
  if s.gasLimit ≥ minGas ∧ s.last < s.chains.length then
    let trimmed := trimIfOver env s.chains s.opt s.last s.gasLimit
    let opt := trimmed.2
    let chains := pushIfValid opt trimmed.1 s.last
    match optScan chains (chains.drop s.last) 0 opt s.gasLimit s.result with
    | (.invalidate i id, opt, gasLimit, result) =>
      .inl ⟨invalidate chains.length chains id, opt, gasLimit, result, s.last + i + 1⟩
    | (.trim i target, opt, gasLimit, result) =>
      let trimmed := optTrimAt env chains opt (s.last + i) target
      .inl ⟨trimmed.1, trimmed.2, gasLimit, result, s.last + i⟩
    | (_, _, gasLimit, result) => .inr (result, gasLimit)
  else .inr (s.result, s.gasLimit)

/-- The chains in play in optimal selection: valid and not merged. -/
def unmerged (opt : ℕ → OptFields P) (id : ℕ) : Bool :=
  !(opt id).merged

omit [LinearOrder P] [Zero P] in
/-- Fewer chains in play weigh no more. -/
lemma liveWeight_mono {q q' : ℕ → Bool} (h : ∀ id, q' id = true → q id = true)
    (chains : List (MsgChain P)) : liveWeight q' chains ≤ liveWeight q chains := by
  have hc : ∀ c : MsgChain P, chainWeight q' (id c) ≤ chainWeight q c := by
    intro c
    unfold chainWeight
    by_cases hq : q' c.id = true
    · simp [hq, h _ hq]
    · simp [hq]
  simpa using liveWeight_map_le hc chains

lemma optTrimAt_fst (chains : List (MsgChain P)) (opt : ℕ → OptFields P) (idx : ℕ) (g : ℤ) :
    (optTrimAt env chains opt idx g).1 = trimAt env.toSelectEnv chains idx g := by
  unfold optTrimAt
  split
  · rename_i hc
    simp only [trimAt, hc]
  · rfl

lemma optTrimAt_merged (chains : List (MsgChain P)) (opt : ℕ → OptFields P) (idx : ℕ) (g : ℤ)
    (id : ℕ) : ((optTrimAt env chains opt idx g).2 id).merged = (opt id).merged := by
  unfold optTrimAt
  split
  · rfl
  · rename_i c _
    by_cases hid : id = c.id
    · subst hid
      simp
    · simp [Function.update_of_ne hid]

/-- Trimming never brings a chain into play, nor merges one. -/
lemma trimIfOver_weight (chains : List (MsgChain P)) (opt : ℕ → OptFields P) (last : ℕ) (g : ℤ) :
    (∀ id, ((trimIfOver env chains opt last g).2 id).merged = (opt id).merged) ∧
      ∀ q, liveWeight q (trimIfOver env chains opt last g).1 ≤ liveWeight q chains := by
  unfold trimIfOver
  split
  · split
    · exact ⟨optTrimAt_merged env _ _ _ _, fun q => by
        rw [optTrimAt_fst]
        exact liveWeight_trimAt_le env.toSelectEnv _ _ _⟩
    · exact ⟨fun _ => rfl, fun _ => le_rfl⟩
  · exact ⟨fun _ => rfl, fun _ => le_rfl⟩

lemma pushIfValid_perm (opt : ℕ → OptFields P) (chains : List (MsgChain P)) (last : ℕ) :
    (pushIfValid opt chains last).Perm chains := by
  unfold pushIfValid
  split
  · exact pushDownBy_perm _ _ _
  · exact List.Perm.refl _

omit [LinearOrder P] [Zero P] in
lemma markMerged_mono (opt : ℕ → OptFields P) (cs : List (MsgChain P)) {id : ℕ}
    (h : (opt id).merged = true) : (markMerged opt cs id).merged = true := by
  have hstep : ∀ (o : ℕ → OptFields P) (d : MsgChain P), (o id).merged = true →
      ((Function.update o d.id { o d.id with merged := true }) id).merged = true := by
    intro o d ho
    by_cases hid : id = d.id
    · subst hid
      simp
    · rw [Function.update_of_ne hid]
      exact ho
  exact @Run.run_invariant _ _ (fun o d => Function.update o d.id { o d.id with merged := true })
    (fun o => (o id).merged = true) (fun o d ho => hstep o d ho) cs _ h

/-- A scan only merges chains. -/
lemma optScan_mono (chains : List (MsgChain P)) :
    ∀ (l : List (MsgChain P)) (i : ℕ) (opt : ℕ → OptFields P) (g : ℤ) (r : List SignedMessage)
      (id : ℕ), (opt id).merged = true → ((optScan chains l i opt g r).2.1 id).merged = true
  | [], _, _, _, _, _, h => h
  | c :: rest, i, opt, g, r, id, h => by
    unfold optScan
    dsimp only
    split_ifs
    · exact optScan_mono chains rest _ _ _ _ id h
    · exact optScan_mono chains rest _ _ _ _ id h
    · exact h
    · exact optScan_mono chains rest _ _ _ _ id (markMerged_mono _ _ h)
    · exact h
    · exact h

omit [LinearOrder P] [Zero P] in
/-- What a scan finds further on is one place further on from the chain before. -/
lemma stop_cons {Q : MsgChain P → Prop} {c : MsgChain P} {rest : List (MsgChain P)} {i j : ℕ}
    (h : ∃ d, rest[j - (i + 1)]? = some d ∧ i + 1 ≤ j ∧ Q d) :
    ∃ d, (c :: rest)[j - i]? = some d ∧ i ≤ j ∧ Q d := by
  obtain ⟨d, hd, hij, hq⟩ := h
  refine ⟨d, ?_, by omega, hq⟩
  rw [show j - i = j - (i + 1) + 1 by omega]
  exact hd

/-- A scan stops to invalidate only a chain in play. -/
lemma optScan_invalidate (chains : List (MsgChain P)) {j id : ℕ} {opt' : ℕ → OptFields P}
    {g' : ℤ} {r' : List SignedMessage} :
    ∀ (l : List (MsgChain P)) (i : ℕ) (opt : ℕ → OptFields P) (g : ℤ) (r : List SignedMessage),
      optScan chains l i opt g r = (.invalidate j id, opt', g', r') →
      ∃ c, l[j - i]? = some c ∧ i ≤ j ∧ c.id = id ∧ (c.valid && unmerged opt' c.id) = true
  | [], _, _, _, _, h => by cases h
  | c :: rest, i, opt, g, r, h => by
    unfold optScan at h
    dsimp only at h
    split_ifs at h with hinv hmerged hneg hfit hdeps
    · exact stop_cons (optScan_invalidate chains rest _ _ _ _ h)
    · exact stop_cons (optScan_invalidate chains rest _ _ _ _ h)
    · cases h
    · exact stop_cons (optScan_invalidate chains rest _ _ _ _ h)
    · -- the chain and its dependencies do not fit, nor do the dependencies alone
      simp only [Prod.mk.injEq, OptScanEnd.invalidate.injEq] at h
      obtain ⟨⟨rfl, rfl⟩, rfl, -, -⟩ := h
      simp only [Bool.not_eq_true'] at hinv hmerged
      exact ⟨c, by simp, le_rfl, rfl, by simp [unmerged, hinv, hmerged]⟩
    · cases h

/-- A scan stops to trim only a chain in play, and one over the gas it is to be trimmed to. -/
lemma optScan_trim (chains : List (MsgChain P)) {j : ℕ} {target : ℤ} {opt' : ℕ → OptFields P}
    {g' : ℤ} {r' : List SignedMessage} :
    ∀ (l : List (MsgChain P)) (i : ℕ) (opt : ℕ → OptFields P) (g : ℤ) (r : List SignedMessage),
      optScan chains l i opt g r = (.trim j target, opt', g', r') →
      ∃ c, l[j - i]? = some c ∧ i ≤ j ∧ (c.valid && unmerged opt' c.id) = true ∧
        target < c.gasLimit
  | [], _, _, _, _, h => by cases h
  | c :: rest, i, opt, g, r, h => by
    unfold optScan at h
    dsimp only at h
    split_ifs at h with hinv hmerged hneg hfit hdeps
    · exact stop_cons (optScan_trim chains rest _ _ _ _ h)
    · exact stop_cons (optScan_trim chains rest _ _ _ _ h)
    · cases h
    · exact stop_cons (optScan_trim chains rest _ _ _ _ h)
    · cases h
    · -- the dependencies fit and leave less gas than the chain needs
      simp only [Prod.mk.injEq, OptScanEnd.trim.injEq] at h
      obtain ⟨⟨rfl, rfl⟩, rfl, -, -⟩ := h
      simp only [Bool.not_eq_true'] at hinv hmerged
      exact ⟨c, by simp, le_rfl, by simp [unmerged, hinv, hmerged], by omega⟩

/-- The weight of the chains in play in optimal selection. -/
def optWeight (s : OptState P) : ℕ :=
  liveWeight (unmerged s.opt) s.chains

/-- **Every pass of the optimal tail loop that goes on takes a chain out of play or trims one.**
The trim at the start of the pass and the push-down lower no weight; the scan only merges, which
takes chains out of play; and the chain it stops at is in play and over its target. -/
lemma optTailPass_lt {s s' : OptState P} (h : optTailPass env s = .inl s') :
    optWeight s' < optWeight s := by
  unfold optTailPass at h
  split_ifs at h with hgo
  dsimp only at h
  obtain ⟨hmerged, hle⟩ := trimIfOver_weight env s.chains s.opt s.last s.gasLimit
  generalize trimIfOver env s.chains s.opt s.last s.gasLimit = T at h hmerged hle
  have hperm := pushIfValid_perm T.2 T.1 s.last
  generalize pushIfValid T.2 T.1 s.last = chains at h hperm
  -- what the pass keeps in play weighs no more than what it started with
  have hstart : ∀ opt' : ℕ → OptFields P, (∀ id, (T.2 id).merged = true → (opt' id).merged = true) →
      liveWeight (unmerged opt') chains ≤ optWeight s := by
    intro opt' hopt
    have hT : unmerged T.2 = unmerged s.opt := funext fun id => by simp [unmerged, hmerged]
    calc liveWeight (unmerged opt') chains
        ≤ liveWeight (unmerged T.2) chains :=
          liveWeight_mono (fun id => by simpa [unmerged] using mt (hopt id)) chains
      _ = liveWeight (unmerged T.2) T.1 := liveWeight_perm hperm
      _ ≤ liveWeight (unmerged T.2) s.chains := hle _
      _ = optWeight s := by rw [hT]; rfl
  have hmono := fun id => optScan_mono chains (chains.drop s.last) 0 T.2 s.gasLimit s.result id
  rcases hres : optScan chains (chains.drop s.last) 0 T.2 s.gasLimit s.result with
    ⟨e, opt', g', r'⟩
  rw [hres] at h hmono
  cases e with
  | done => cases h
  | negative => cases h
  | invalidate i id =>
    cases h
    obtain ⟨c, hc, -, rfl, hlive⟩ := optScan_invalidate chains _ _ _ _ _ hres
    have hmem : c ∈ chains := List.mem_of_mem_drop (List.mem_of_getElem? hc)
    obtain ⟨n, hn⟩ : ∃ n, chains.length = n + 1 :=
      Nat.exists_eq_succ_of_ne_zero (List.length_pos_of_mem hmem).ne'
    calc optWeight ⟨invalidate chains.length chains c.id, opt', g', r', s.last + i + 1⟩
        = liveWeight (unmerged opt') (invalidate (n + 1) chains c.id) := by
          rw [optWeight, hn]
      _ < liveWeight (unmerged opt') chains := liveWeight_invalidate_lt hmem hlive
      _ ≤ optWeight s := hstart opt' hmono
  | trim i target =>
    cases h
    obtain ⟨c, hc, -, hlive, hover⟩ := optScan_trim chains _ _ _ _ _ hres
    rw [List.getElem?_drop, Nat.sub_zero] at hc
    have hq : unmerged (optTrimAt env chains opt' (s.last + i) target).2 = unmerged opt' :=
      funext fun id => by simp only [unmerged, optTrimAt_merged]
    calc optWeight ⟨(optTrimAt env chains opt' (s.last + i) target).1,
          (optTrimAt env chains opt' (s.last + i) target).2, g', r', s.last + i⟩
        = liveWeight (unmerged opt') (trimAt env.toSelectEnv chains (s.last + i) target) := by
          rw [optWeight, hq, optTrimAt_fst]
      _ < liveWeight (unmerged opt') chains := liveWeight_trimAt_lt env.toSelectEnv hc hlive hover
      _ ≤ optWeight s := hstart opt' hmono

/-- **The optimal tail loop ends**: from every state, within one pass more than the weight of the
chains in play. -/
theorem optTailPass_ends (s : OptState P) :
    ∃ x, Run.loopFuel (optTailPass env) (optWeight s + 1) s = some x :=
  Run.loopFuel_of_measure (I := fun _ => True) optWeight
    (fun _ _ _ h => ⟨trivial, optTailPass_lt env h⟩) _ s trivial (Nat.lt_succ_self _)

end Optimal

/-- **The packing loops of message selection end.** From every state, whatever its chains and
gas: the tail loop of greedy selection (and of priority selection, which runs the same loop), the
tail loop of optimal selection and the loop of `republishPendingMessages` each leave within a
number of passes bounded by the weight of the chains. -/
theorem selection_loops_terminate {P : Type} [LinearOrder P] [Zero P] (env : OptEnv P) :
    (∀ s : TailState P, ∃ x, Run.loopFuel (tailPass env.toSelectEnv)
      (liveWeight (fun _ => true) s.chains + 2) s = some x) ∧
    (∀ s : OptState P, ∃ x, Run.loopFuel (optTailPass env) (optWeight s + 1) s = some x) ∧
    (∀ (baseFeeLowerBound : ℤ) (s : RepubState P), ∃ x,
      Run.loopFuel (repubPass env.toSelectEnv baseFeeLowerBound) (repubMeasure s + 1) s = some x) :=
  ⟨tailPass_ends env.toSelectEnv, optTailPass_ends env, repubPass_ends env.toSelectEnv⟩

end MessagePool

end Lotus
