import Mathlib
import Lotus.Chain.Messagepool.Selection

/-!
# The chains of one sender (`createMessageChains`)

`createMessageChains` turns a sender's pending messages into chains in three steps.  The sanity
loop walks the messages in nonce order from the actor's nonce and keeps them while each passes its
checks: the next nonce, at least its on-chain gas, the block gas limit with the messages before
it, and a balance that covers its required funds; each kept message then spends its required
funds and its value.  The first pass groups the kept messages into chains, starting a new chain
at a message that would lower the current chain's performance.  The merge loop then merges a chain
into the one before it while it performs at least as well, pass after pass, until a pass merges
nothing.

The checks are `Admits`, a run of messages that pass them one after another is `IsRun`, and the
run the loop takes is `takeRun`.  For a sender's set, whose keys are the nonces of their messages,
the chains hold exactly the longest run of its messages (`createMessageChains_spec`); each chain is
non-empty and valid, `next` and `prev` link each chain to its neighbours, and performance strictly
decreases along the chains.  The strict decrease holds only at the merge loop's fixpoint; that the
loop gets there within as many passes as there are chains is `mergeChains_stable`.

The balance check is on the required funds alone: the value of the last message kept may take the
balance below zero (`createMessageChains_spends_past_balance`).
-/

namespace Lotus

namespace MessagePool

variable {P : Type} (env : SelectEnv P)

/-! ## Runs -/

/-- The checks the sanity loop makes of the message at `nonce`, given the balance and the gas the
messages before it leave. -/
def Admits (nonce : ℕ) (balance gas : ℤ) (m : SignedMessage) : Prop :=
  m.message.nonce = nonce ∧ env.onChainMessageGas m ≤ m.message.gasLimit ∧
    gas + m.message.gasLimit ≤ blockGasLimit ∧ m.message.requiredFunds ≤ balance

instance (nonce : ℕ) (balance gas : ℤ) (m : SignedMessage) : Decidable (Admits env nonce balance gas m) :=
  inferInstanceAs (Decidable (_ ∧ _ ∧ _ ∧ _))

/-- The messages pass the checks one after another from `nonce`, `balance` and `gas`: each spends
its required funds, its value and its gas. -/
def IsRun : ℕ → ℤ → ℤ → List SignedMessage → Prop
  | _, _, _, [] => True
  | nonce, balance, gas, m :: ms => Admits env nonce balance gas m ∧
      IsRun (nonce + 1) (balance - m.message.requiredFunds - m.message.value) (gas + m.message.gasLimit) ms

/-- `run` is the longest run of the messages of `mset` from the actor's `nonce` and `balance`: a run
of its messages of which every run of its messages is a prefix. -/
def IsLongestRun (mset : AList (fun _ : ℕ => SignedMessage)) (nonce : ℕ) (balance : ℤ)
    (run : List SignedMessage) : Prop :=
  (∀ m ∈ run, ∃ n, mset.lookup n = some m) ∧ IsRun env nonce balance 0 run ∧
    ∀ run', (∀ m ∈ run', ∃ n, mset.lookup n = some m) → IsRun env nonce balance 0 run' → run' <+: run

/-- The messages of a run are at consecutive nonces. -/
lemma IsRun.getElem_nonce : ∀ {nonce : ℕ} {balance gas : ℤ} {run : List SignedMessage},
    IsRun env nonce balance gas run → ∀ (i : ℕ) (hi : i < run.length), run[i].message.nonce = nonce + i
  | _, _, _, [], _, _, hi => absurd hi (Nat.not_lt_zero _)
  | _, _, _, m :: ms, ⟨hm, hms⟩, i, hi => by
    cases i with
    | zero => exact hm.1
    | succ i =>
      rw [List.getElem_cons_succ, IsRun.getElem_nonce hms i (by simpa using hi)]
      omega

lemma IsRun.nonce_le {nonce : ℕ} {balance gas : ℤ} {run : List SignedMessage}
    (h : IsRun env nonce balance gas run) {m : SignedMessage} (hm : m ∈ run) : nonce ≤ m.message.nonce := by
  obtain ⟨i, hi, rfl⟩ := List.getElem_of_mem hm
  rw [h.getElem_nonce env i hi]
  omega

/-- The messages the sanity loop keeps from `l` once past the stale ones: while the next message
passes the checks. -/
def takeRun : List SignedMessage → ℕ → ℤ → ℤ → List SignedMessage
  | [], _, _, _ => []
  | m :: ms, nonce, balance, gas =>
    if Admits env nonce balance gas m then
      m :: takeRun ms (nonce + 1) (balance - m.message.requiredFunds - m.message.value)
        (gas + m.message.gasLimit)
    else []

lemma takeRun_isPrefix : ∀ (l : List SignedMessage) (nonce : ℕ) (balance gas : ℤ),
    takeRun env l nonce balance gas <+: l
  | [], _, _, _ => List.prefix_refl _
  | m :: ms, nonce, balance, gas => by
    unfold takeRun
    split
    · exact (List.prefix_cons_inj m).2 (takeRun_isPrefix ms _ _ _)
    · exact List.nil_prefix

lemma takeRun_isRun : ∀ (l : List SignedMessage) (nonce : ℕ) (balance gas : ℤ),
    IsRun env nonce balance gas (takeRun env l nonce balance gas)
  | [], _, _, _ => trivial
  | m :: ms, nonce, balance, gas => by
    unfold takeRun
    split
    · exact ⟨‹_›, takeRun_isRun ms _ _ _⟩
    · trivial

/-- **The loop takes the longest run**: from a list in increasing nonce order, none below
`nonce`, every run of its messages is a prefix of what `takeRun` takes. -/
lemma takeRun_longest : ∀ (run : List SignedMessage) (l : List SignedMessage) (nonce : ℕ)
    (balance gas : ℤ), l.Pairwise (fun a b => a.message.nonce < b.message.nonce) →
    (∀ m ∈ l, nonce ≤ m.message.nonce) → (∀ m ∈ run, m ∈ l) → IsRun env nonce balance gas run →
    run <+: takeRun env l nonce balance gas
  | [], _, _, _, _, _, _, _, _ => List.nil_prefix
  | m :: run, l, nonce, balance, gas, hsorted, hge, hmem, ⟨hm, hrun⟩ => by
    -- the first message of `l` is at the smallest nonce, which is `m`'s
    obtain ⟨h, ls, rfl⟩ := List.exists_cons_of_ne_nil (List.ne_nil_of_mem (hmem m List.mem_cons_self))
    rw [List.pairwise_cons] at hsorted
    have hnonce := hm.1
    have hmh : m = h := by
      rcases List.mem_cons.1 (hmem m List.mem_cons_self) with rfl | hmls
      · rfl
      · have := hsorted.1 m hmls
        have := hge h List.mem_cons_self
        omega
    subst hmh
    rw [takeRun, if_pos hm, List.prefix_cons_inj]
    refine takeRun_longest run ls _ _ _ hsorted.2 (fun x hx => ?_) (fun x hx => ?_) hrun
    · have := hsorted.1 x hx
      omega
    · -- the later messages of the run are at later nonces, so they are not `m`
      have hx' := hrun.nonce_le env hx
      rcases List.mem_cons.1 (hmem x (List.mem_cons_of_mem _ hx)) with rfl | hxls
      · omega
      · exact hxls

/-! ## The sanity loop -/

/-- Messages below the actor's nonce are skipped. -/
lemma sanityLoop_stale [LinearOrder P] [Zero P] (l₂ : List SignedMessage) (nonce : ℕ) (balance gas : ℤ) (rewards : List ℤ) :
    ∀ (l₁ : List SignedMessage) (skip i : ℕ), (∀ m ∈ l₁, m.message.nonce < nonce) →
      sanityLoop env (l₁ ++ l₂) nonce balance gas skip i rewards =
        sanityLoop env l₂ nonce balance gas (skip + l₁.length) (i + l₁.length) rewards
  | [], _, _, _ => rfl
  | m :: l₁, skip, i, h => by
    rw [List.cons_append, sanityLoop, if_pos (h m List.mem_cons_self),
      sanityLoop_stale l₂ nonce balance gas rewards l₁ _ _ fun x hx => h x (List.mem_cons_of_mem _ hx),
      List.length_cons, Nat.add_right_comm skip, Nat.add_right_comm i, Nat.add_assoc, Nat.add_assoc]

/-- Past them, it keeps `takeRun` and its rewards. -/
lemma sanityLoop_run [LinearOrder P] [Zero P] : ∀ (l : List SignedMessage) (nonce : ℕ) (balance gas : ℤ) (skip i : ℕ)
    (rewards : List ℤ), l.Pairwise (fun a b => a.message.nonce < b.message.nonce) →
    (∀ m ∈ l, nonce ≤ m.message.nonce) →
    sanityLoop env l nonce balance gas skip i rewards =
      (skip, i + (takeRun env l nonce balance gas).length,
        rewards ++ (takeRun env l nonce balance gas).map (getGasReward env))
  | [], _, _, _, _, _, _, _, _ => by simp [sanityLoop, takeRun]
  | m :: ms, nonce, balance, gas, skip, i, rewards, hsorted, hge => by
    have hnot : ¬ m.message.nonce < nonce := Nat.not_lt.2 (hge m List.mem_cons_self)
    rw [List.pairwise_cons] at hsorted
    by_cases hA : Admits env nonce balance gas m
    · obtain ⟨h1, h2, h3, h4⟩ := hA
      rw [sanityLoop, if_neg hnot, if_neg (not_not.2 h1), if_neg (not_lt.2 h2), if_neg (not_lt.2 h3),
        if_neg (not_lt.2 h4), takeRun, if_pos ⟨h1, h2, h3, h4⟩,
        sanityLoop_run ms _ _ _ _ _ _ hsorted.2 fun x hx => by have := hsorted.1 x hx; omega]
      simp only [List.length_cons, List.map_cons, List.append_assoc, List.singleton_append]
      rw [Nat.add_right_comm i 1, Nat.add_assoc]
    · rw [takeRun, if_neg hA, sanityLoop, if_neg hnot]
      -- whichever check fails, the loop stops where it is
      split_ifs with h1 h2 h3 h4
      all_goals try simp
      exact absurd ⟨not_not.1 h1, not_lt.1 h2, not_lt.1 h3, not_lt.1 h4⟩ hA

/-! ## Grouping into chains

The first pass and the merge loop regroup the kept messages without losing, repeating or
reordering one (`buildChains_flatMap`, `mergePass_flatMap`), and never leave an empty chain.
-/

/-- Performance strictly decreases from each chain to the next. -/
def Decreasing [LinearOrder P] (c d : ChainDraft P) : Prop :=
  d.gasPerf < c.gasPerf

lemma buildChains_flatMap [LinearOrder P] : ∀ (acc : List (ChainDraft P)) (ms : List (SignedMessage × ℤ)),
    (buildChains env acc ms).reverse.flatMap (·.msgs) = acc.reverse.flatMap (·.msgs) ++ ms.map Prod.fst
  | acc, [] => by simp [buildChains]
  | [], (m, r) :: rest => by
    rw [buildChains, buildChains_flatMap]
    simp [newChain]
  | cur :: done, (m, r) :: rest => by
    unfold buildChains
    dsimp only
    split
    · rw [buildChains_flatMap]
      simp [newChain]
    · rw [buildChains_flatMap]
      simp

lemma buildChains_ne_nil [LinearOrder P] : ∀ (acc : List (ChainDraft P)) (ms : List (SignedMessage × ℤ)),
    (∀ d ∈ acc, d.msgs ≠ []) → ∀ d ∈ buildChains env acc ms, d.msgs ≠ []
  | acc, [], h => by simpa [buildChains] using h
  | [], (m, r) :: rest, _ => by
    rw [buildChains]
    exact buildChains_ne_nil _ rest (by simp [newChain])
  | cur :: done, (m, r) :: rest, h => by
    unfold buildChains
    dsimp only
    split
    · refine buildChains_ne_nil _ rest fun d hd => ?_
      rcases List.mem_cons.1 hd with rfl | hd
      · simp [newChain]
      · exact h d hd
    · refine buildChains_ne_nil _ rest fun d hd => ?_
      rcases List.mem_cons.1 hd with rfl | hd
      · simp
      · exact h d (List.mem_cons_of_mem _ hd)

/-- What one pass of the merge loop does to the chains: their messages stay in order, each merge
shortens the list by one, and a pass that merges nothing leaves chains that strictly decrease. -/
lemma mergePass_flatMap [LinearOrder P] : ∀ (chains : List (ChainDraft P)),
    (mergePass env chains).1.flatMap (·.msgs) = chains.flatMap (·.msgs)
  | [] => rfl
  | c :: rest => by
    have ih := mergePass_flatMap rest
    unfold mergePass
    rcases h : mergePass env rest with ⟨_ | ⟨d, rest'⟩, k⟩ <;> rw [h] at ih <;> dsimp only
    · simp only [List.flatMap_cons, List.flatMap_nil] at ih ⊢
      rw [← ih]
    · split <;> simp only [List.flatMap_cons, List.append_assoc] at ih ⊢ <;> rw [← ih]

lemma mergePass_ne_nil [LinearOrder P] : ∀ (chains : List (ChainDraft P)), (∀ d ∈ chains, d.msgs ≠ []) →
    ∀ d ∈ (mergePass env chains).1, d.msgs ≠ []
  | [], _ => by simp [mergePass]
  | c :: rest, h => by
    have ih := mergePass_ne_nil rest fun d hd => h d (List.mem_cons_of_mem _ hd)
    have hc := h c List.mem_cons_self
    unfold mergePass
    rcases hp : mergePass env rest with ⟨_ | ⟨d, rest'⟩, k⟩ <;> rw [hp] at ih <;> dsimp only
    · simpa using hc
    · split
      · intro x hx
        rcases List.mem_cons.1 hx with rfl | hx
        · simp [hc]
        · exact ih x (List.mem_cons_of_mem _ hx)
      · intro x hx
        rcases List.mem_cons.1 hx with rfl | hx
        · exact hc
        · exact ih x hx

lemma mergePass_length [LinearOrder P] : ∀ (chains : List (ChainDraft P)),
    (mergePass env chains).1.length + (mergePass env chains).2 = chains.length
  | [] => rfl
  | c :: rest => by
    have ih := mergePass_length rest
    unfold mergePass
    rcases h : mergePass env rest with ⟨_ | ⟨d, rest'⟩, k⟩ <;> rw [h] at ih <;> dsimp only
    · simp only [List.length_cons, List.length_nil] at ih ⊢
      omega
    · split <;> simp only [List.length_cons] at ih ⊢ <;> omega

/-- A pass that merges nothing leaves the chains as they were, strictly decreasing. -/
lemma mergePass_eq_zero [LinearOrder P] : ∀ (chains : List (ChainDraft P)), (mergePass env chains).2 = 0 →
    (mergePass env chains).1 = chains ∧ chains.IsChain Decreasing
  | [], _ => ⟨rfl, List.IsChain.nil⟩
  | c :: rest, h0 => by
    have hlen := mergePass_length env rest
    rcases h : mergePass env rest with ⟨_ | ⟨d, rest'⟩, k⟩ <;> simp only [mergePass, h] at h0 hlen ⊢
    · -- the rest merged into nothing, so it was empty
      rw [h0, List.length_nil, Nat.add_zero, eq_comm, List.length_eq_zero_iff] at hlen
      subst hlen
      exact ⟨rfl, List.IsChain.singleton c⟩
    · split at h0
      · exact absurd h0 (Nat.succ_ne_zero k)
      · rename_i hlt
        obtain ⟨hrest, hchain⟩ := mergePass_eq_zero rest (by rw [h]; exact h0)
        rw [h] at hrest
        dsimp only at hrest
        subst hrest
        rw [if_neg hlt]
        exact ⟨rfl, List.IsChain.cons_cons (lt_of_not_ge hlt) hchain⟩

/-- Chains that strictly decrease are left as they are. -/
lemma mergePass_of_isChain [LinearOrder P] : ∀ (chains : List (ChainDraft P)), chains.IsChain Decreasing →
    mergePass env chains = (chains, 0)
  | [], _ => rfl
  | [c], _ => rfl
  | c :: d :: rest, h => by
    rw [List.isChain_cons_cons] at h
    have ih := mergePass_of_isChain (d :: rest) h.2
    rw [mergePass, ih]
    dsimp only
    rw [if_neg (not_le.2 h.1)]

lemma mergeChains_flatMap [LinearOrder P] (fuel : ℕ) : ∀ (chains : List (ChainDraft P)),
    (mergeChains env fuel chains).flatMap (·.msgs) = chains.flatMap (·.msgs) := by
  induction fuel with
  | zero => intro chains; rfl
  | succ fuel ih =>
    intro chains
    unfold mergeChains
    split
    · rfl
    · rename_i chains' k hpass
      rw [ih, ← mergePass_flatMap env chains, hpass]

lemma mergeChains_ne_nil [LinearOrder P] (fuel : ℕ) : ∀ (chains : List (ChainDraft P)),
    (∀ d ∈ chains, d.msgs ≠ []) → ∀ d ∈ mergeChains env fuel chains, d.msgs ≠ [] := by
  induction fuel with
  | zero => intro chains h; exact h
  | succ fuel ih =>
    intro chains h
    unfold mergeChains
    split
    · exact h
    · rename_i chains' k hpass
      have hne := mergePass_ne_nil env chains h
      rw [hpass] at hne
      exact ih _ hne

/-- **The merge loop reaches its fixpoint** when it may make one pass more than there are
chains: every pass that merges shortens the list. -/
lemma mergeChains_isChain [LinearOrder P] (fuel : ℕ) : ∀ (chains : List (ChainDraft P)),
    chains.length ≤ fuel + 1 → (mergeChains env fuel chains).IsChain Decreasing := by
  induction fuel with
  | zero =>
    intro chains hlen
    match chains, hlen with
    | [], _ => exact List.IsChain.nil
    | [c], _ => exact List.IsChain.singleton c
  | succ fuel ih =>
    intro chains hlen
    have hl := mergePass_length env chains
    unfold mergeChains
    split
    · rename_i chains' hpass
      rw [hpass] at hl
      exact (mergePass_eq_zero env chains (by rw [hpass])).2
    · rename_i chains' k hpass
      rw [hpass] at hl
      exact ih chains' (by dsimp only at hl; omega)

/-- So Go's loop, which stops at the first pass that merges nothing, stops there too. -/
theorem mergeChains_stable [LinearOrder P] (chains : List (ChainDraft P)) :
    mergePass env (mergeChains env chains.length chains) = (mergeChains env chains.length chains, 0) :=
  mergePass_of_isChain env _ (mergeChains_isChain env _ chains (Nat.le_succ _))

/-! ## Linking -/

section Link

variable (prev : Option ℕ) (start : ℕ) (drafts : List (ChainDraft P))

lemma linkChains_map_msgs : (linkChains prev start drafts).map (·.msgs) = drafts.map (·.msgs) := by
  induction drafts generalizing prev start with
  | nil => rfl
  | cons d rest ih =>
    cases rest with
    | nil => rfl
    | cons e rest => rw [linkChains, List.map_cons, ih]; rfl

lemma linkChains_map_gasPerf : (linkChains prev start drafts).map (·.gasPerf) = drafts.map (·.gasPerf) := by
  induction drafts generalizing prev start with
  | nil => rfl
  | cons d rest ih =>
    cases rest with
    | nil => rfl
    | cons e rest => rw [linkChains, List.map_cons, ih]; rfl

lemma linkChains_map_id : (linkChains prev start drafts).map (·.id) = List.range' start drafts.length := by
  induction drafts generalizing prev start with
  | nil => rfl
  | cons d rest ih =>
    cases rest with
    | nil => rfl
    | cons e rest => rw [linkChains, List.map_cons, ih]; rfl

lemma linkChains_valid : ∀ c ∈ linkChains prev start drafts, c.valid = true := by
  induction drafts generalizing prev start with
  | nil => simp [linkChains]
  | cons d rest ih =>
    cases rest with
    | nil => simp [linkChains]
    | cons e rest =>
      intro c hc
      rw [linkChains] at hc
      rcases List.mem_cons.1 hc with rfl | hc
      · rfl
      · exact ih _ _ c hc

/-- Each chain's `next` is the chain after it, whose `prev` is that chain. -/
lemma linkChains_links :
    (linkChains prev start drafts).IsChain (fun c d => c.next = some d.id ∧ d.prev = some c.id) ∧
      (∀ c ∈ (linkChains prev start drafts).head?, c.prev = prev) ∧
      ∀ c ∈ (linkChains prev start drafts).getLast?, c.next = none := by
  induction drafts generalizing prev start with
  | nil => simp [linkChains]
  | cons d rest ih =>
    cases rest with
    | nil => simp [linkChains]
    | cons e rest =>
      obtain ⟨hchain, hhead, hlast⟩ := ih (some start) (start + 1)
      obtain ⟨c, cs, hcs⟩ : ∃ c cs, linkChains (some start) (start + 1) (e :: rest) = c :: cs := by
        cases rest <;> exact ⟨_, _, rfl⟩
      rw [hcs] at hchain hhead hlast
      have hc := hhead c rfl
      -- the id of the second chain is `start + 1`, as its numbering starts there
      have hid : c.id = start + 1 := by
        have := linkChains_map_id (some start) (start + 1) (e :: rest)
        rw [hcs, List.map_cons, List.length_cons, List.range'_succ] at this
        exact (List.cons.inj this).1
      rw [linkChains, hcs]
      refine ⟨List.IsChain.cons_cons ⟨by rw [hid], hc⟩ hchain, by simp, ?_⟩
      rwa [List.getLast?_cons_cons]

end Link

/-! ## A sender's messages in nonce order -/

section Sorted

variable {mset : AList (fun _ : ℕ => SignedMessage)}

/-- The messages of `mset` sorted by nonce, as `createMessageChains` sorts them. -/
def sortedMsgs (mset : AList (fun _ : ℕ => SignedMessage)) : List SignedMessage :=
  (mset.entries.map (·.2)).insertionSort fun a b => a.message.nonce ≤ b.message.nonce

lemma mem_sortedMsgs {m : SignedMessage} : m ∈ sortedMsgs mset ↔ ∃ n, mset.lookup n = some m := by
  rw [sortedMsgs, (List.perm_insertionSort _ _).mem_iff, List.mem_map]
  constructor
  · rintro ⟨e, he, rfl⟩
    exact ⟨e.1, AList.mem_lookup_iff.2 he⟩
  · rintro ⟨n, hn⟩
    exact ⟨⟨n, m⟩, AList.mem_lookup_iff.1 hn, rfl⟩

/-- In a sender's set, whose keys are its messages' nonces, no two messages share a nonce, so
sorting puts them in strictly increasing nonce order. -/
lemma sortedMsgs_increasing (hkeys : ∀ n m, mset.lookup n = some m → m.message.nonce = n) :
    (sortedMsgs mset).Pairwise fun a b => a.message.nonce < b.message.nonce := by
  have : Std.Total fun a b : SignedMessage => a.message.nonce ≤ b.message.nonce :=
    ⟨fun a b => le_total _ _⟩
  have : IsTrans SignedMessage fun a b => a.message.nonce ≤ b.message.nonce :=
    ⟨fun a b c => le_trans⟩
  have hle := List.pairwise_insertionSort (fun a b : SignedMessage => a.message.nonce ≤ b.message.nonce)
    (mset.entries.map (·.2))
  -- the nonces are the keys
  have hkeys' : (mset.entries.map (·.2)).map (·.message.nonce) = mset.keys := by
    rw [List.map_map, AList.keys, List.keys]
    exact List.map_congr_left fun e he => hkeys e.1 e.2 (AList.mem_lookup_iff.2 he)
  have hnd : ((sortedMsgs mset).map (·.message.nonce)).Nodup := by
    rw [sortedMsgs, ((List.perm_insertionSort _ _).map _).nodup_iff, hkeys']
    exact mset.keys_nodup
  rw [List.Nodup, List.pairwise_map] at hnd
  exact (hle.and hnd).imp fun h => lt_of_le_of_ne h.1 h.2

/-- The run the sanity loop takes from the actor's `nonce` and `balance`. -/
def chainRun (mset : AList (fun _ : ℕ => SignedMessage)) (nonce : ℕ) (balance : ℤ) : List SignedMessage :=
  takeRun env ((sortedMsgs mset).dropWhile fun m => m.message.nonce < nonce) nonce balance 0

variable (hkeys : ∀ n m, mset.lookup n = some m → m.message.nonce = n)
include hkeys

/-- Past the stale messages, every message is at or above the actor's nonce. -/
lemma le_of_mem_dropWhile {nonce : ℕ} {m : SignedMessage}
    (hm : m ∈ (sortedMsgs mset).dropWhile fun m => m.message.nonce < nonce) : nonce ≤ m.message.nonce := by
  have hsorted := (sortedMsgs_increasing hkeys).sublist
    (List.dropWhile_suffix fun m : SignedMessage => decide (m.message.nonce < nonce)).sublist
  obtain ⟨h, rest, hcons⟩ := List.exists_cons_of_ne_nil (List.ne_nil_of_mem hm)
  have hhead := List.head?_dropWhile_not (fun m : SignedMessage => decide (m.message.nonce < nonce))
    (sortedMsgs mset)
  rw [hcons] at hhead hsorted hm
  simp only [List.head?_cons, decide_eq_false_iff_not, Nat.not_lt] at hhead
  rcases List.mem_cons.1 hm with rfl | hm
  · exact hhead
  · exact le_of_lt (lt_of_le_of_lt hhead ((List.pairwise_cons.1 hsorted).1 m hm))

/-- **The run is the longest run** of the sender's messages. -/
lemma chainRun_longest (nonce : ℕ) (balance : ℤ) :
    IsLongestRun env mset nonce balance (chainRun env mset nonce balance) := by
  have hrest := (sortedMsgs_increasing hkeys).sublist (List.dropWhile_suffix
    (fun m : SignedMessage => decide (m.message.nonce < nonce))).sublist
  refine ⟨fun m hm => ?_, takeRun_isRun env _ _ _ _, fun run' hmem hrun => ?_⟩
  · exact mem_sortedMsgs.1 ((List.dropWhile_suffix _).subset ((takeRun_isPrefix env _ _ _ _).subset hm))
  · refine takeRun_longest env run' _ nonce balance 0 hrest (fun m hm => le_of_mem_dropWhile hkeys hm)
      (fun m hm => ?_) hrun
    -- a message of the run is not stale, so it is past the stale prefix
    have hsplit := List.takeWhile_append_dropWhile (p := fun m : SignedMessage => decide (m.message.nonce < nonce))
      (l := sortedMsgs mset)
    have hm' : m ∈ sortedMsgs mset := mem_sortedMsgs.2 (hmem m hm)
    rw [← hsplit, List.mem_append] at hm'
    refine hm'.resolve_left fun hstale => ?_
    have hlt := List.mem_takeWhile_imp hstale
    have hge := hrun.nonce_le env hm
    simp only [decide_eq_true_eq] at hlt
    omega

/-- The chains the first pass builds from a run, each message with its reward, in order. -/
def chainDrafts [LinearOrder P] [Zero P] (run : List SignedMessage) : List (ChainDraft P) :=
  (buildChains env [] (run.map fun m => (m, getGasReward env m))).reverse

omit hkeys in
lemma zip_map_self {α β : Type} (l : List α) (f : α → β) : l.zip (l.map f) = l.map fun a => (a, f a) := by
  induction l with
  | nil => rfl
  | cons a l ih => rw [List.map_cons, List.zip_cons_cons, ih, List.map_cons]

/-- **`createMessageChains` in three steps**: the run, its first-pass chains, and the merge loop
on them, linked. -/
lemma createMessageChains_eq [LinearOrder P] [Zero P] {actor : Address} {nonce : ℕ} {balance : ℤ}
    (hactor : env.actorAfter actor = some (nonce, balance)) (start : ℕ) :
    createMessageChains env actor mset start =
      linkChains none start (mergeChains env (chainDrafts env (chainRun env mset nonce balance)).length
        (chainDrafts env (chainRun env mset nonce balance))) := by
  have hsplit := List.takeWhile_append_dropWhile
    (p := fun m : SignedMessage => decide (m.message.nonce < nonce)) (l := sortedMsgs mset)
  have hrest := (sortedMsgs_increasing hkeys).sublist (List.dropWhile_suffix
    (fun m : SignedMessage => decide (m.message.nonce < nonce))).sublist
  -- the loop skips the stale prefix and then takes the run
  have hloop : sanityLoop env (sortedMsgs mset) nonce balance 0 0 0 [] =
      (((sortedMsgs mset).takeWhile fun m => m.message.nonce < nonce).length,
        ((sortedMsgs mset).takeWhile fun m => m.message.nonce < nonce).length +
          (chainRun env mset nonce balance).length,
        (chainRun env mset nonce balance).map (getGasReward env)) := by
    conv_lhs => rw [← hsplit]
    rw [sanityLoop_stale env _ nonce balance 0 [] _ 0 0 fun m hm => by
        simpa using List.mem_takeWhile_imp hm,
      sanityLoop_run env _ nonce balance 0 _ _ [] hrest fun m hm => le_of_mem_dropWhile hkeys hm]
    simp [chainRun]
  unfold createMessageChains
  rw [hactor]
  dsimp only
  rw [show (mset.entries.map (·.2)).insertionSort (fun a b => a.message.nonce ≤ b.message.nonce) =
    sortedMsgs mset from rfl, hloop]
  dsimp only
  split
  · -- the messages the loop keeps are the run
    have hdrop : (sortedMsgs mset).drop ((sortedMsgs mset).takeWhile fun m => m.message.nonce < nonce).length =
        (sortedMsgs mset).dropWhile fun m => m.message.nonce < nonce := by
      have h : (((sortedMsgs mset).takeWhile fun m => m.message.nonce < nonce) ++
          (sortedMsgs mset).dropWhile fun m => m.message.nonce < nonce).drop
            ((sortedMsgs mset).takeWhile fun m => m.message.nonce < nonce).length =
          (sortedMsgs mset).dropWhile fun m => m.message.nonce < nonce := List.drop_left
      rwa [hsplit] at h
    have htake : ((sortedMsgs mset).dropWhile fun m => m.message.nonce < nonce).take
        (chainRun env mset nonce balance).length = chainRun env mset nonce balance :=
      (List.prefix_iff_eq_take.1 (takeRun_isPrefix env _ _ _ _)).symm
    rw [Nat.add_sub_cancel_left, hdrop, htake, zip_map_self]
    rfl
  · -- no message passes, and there are no chains
    have hnil : chainRun env mset nonce balance = [] := List.eq_nil_of_length_eq_zero (by omega)
    rw [hnil]
    rfl

/-- The chains hold the run, in order. -/
lemma createMessageChains_flatMap [LinearOrder P] [Zero P] {actor : Address} {nonce : ℕ} {balance : ℤ}
    (hactor : env.actorAfter actor = some (nonce, balance)) (start : ℕ) :
    (createMessageChains env actor mset start).flatMap (·.msgs) = chainRun env mset nonce balance := by
  rw [createMessageChains_eq env hkeys hactor start, List.flatMap_def, linkChains_map_msgs,
    ← List.flatMap_def, mergeChains_flatMap]
  simp [chainDrafts, buildChains_flatMap, List.map_map, Function.comp_def]

/-- Performance strictly decreases along the chains: linking keeps the performances, which the
merge loop left strictly decreasing. -/
lemma createMessageChains_decreasing [LinearOrder P] [Zero P] {actor : Address} {nonce : ℕ}
    {balance : ℤ} (hactor : env.actorAfter actor = some (nonce, balance)) (start : ℕ) :
    (createMessageChains env actor mset start).IsChain (fun c d => d.gasPerf < c.gasPerf) := by
  rw [createMessageChains_eq env hkeys hactor start]
  have hdec := (List.isChain_map (R := fun x y : P => y < x) ChainDraft.gasPerf).2
    (mergeChains_isChain env _ (chainDrafts env (chainRun env mset nonce balance)) (Nat.le_succ _))
  rw [← linkChains_map_gasPerf none start] at hdec
  exact (List.isChain_map MsgChain.gasPerf).1 hdec

end Sorted

/-- Whatever the sender, the chains are numbered one after another from `start`. -/
lemma createMessageChains_map_id [LinearOrder P] [Zero P] (actor : Address)
    (mset : AList (fun _ : ℕ => SignedMessage)) (start : ℕ) :
    (createMessageChains env actor mset start).map (·.id) =
      List.range' start (createMessageChains env actor mset start).length := by
  unfold createMessageChains
  split
  · rfl
  · dsimp only
    split
    · rw [linkChains_map_id, ← List.length_map (f := MsgChain.id), linkChains_map_id, List.length_range']
    · rfl

/-- **The chains of one sender.**  For a sender's set, whose keys are its messages' nonces, and
an actor at `nonce` with `balance`: the chains hold, in order, exactly the longest run of its
messages from `nonce` that pass the sanity loop's checks; each chain is non-empty and valid; each
chain's `next` is the chain after it and that chain's `prev` is it, with no `prev` before the first
and no `next` after the last; and performance strictly decreases along the chains. -/
theorem createMessageChains_spec [LinearOrder P] [Zero P] {actor : Address}
    {mset : AList (fun _ : ℕ => SignedMessage)} {nonce start : ℕ} {balance : ℤ}
    (hkeys : ∀ n m, mset.lookup n = some m → m.message.nonce = n)
    (hactor : env.actorAfter actor = some (nonce, balance)) :
    IsLongestRun env mset nonce balance ((createMessageChains env actor mset start).flatMap (·.msgs)) ∧
      (∀ c ∈ createMessageChains env actor mset start, c.msgs ≠ [] ∧ c.valid = true) ∧
      (createMessageChains env actor mset start).IsChain
        (fun c d => c.next = some d.id ∧ d.prev = some c.id) ∧
      (∀ c ∈ (createMessageChains env actor mset start).head?, c.prev = none) ∧
      (∀ c ∈ (createMessageChains env actor mset start).getLast?, c.next = none) ∧
      (createMessageChains env actor mset start).IsChain (fun c d => d.gasPerf < c.gasPerf) := by
  have hlong : IsLongestRun env mset nonce balance
      ((createMessageChains env actor mset start).flatMap (·.msgs)) := by
    rw [createMessageChains_flatMap env hkeys hactor start]
    exact chainRun_longest env hkeys nonce balance
  have hdec := createMessageChains_decreasing env hkeys hactor start
  rw [createMessageChains_eq env hkeys hactor start] at hlong hdec ⊢
  set drafts := chainDrafts env (chainRun env mset nonce balance)
  have hne : ∀ d ∈ drafts, d.msgs ≠ [] := fun d hd =>
    buildChains_ne_nil env [] _ (by simp) d (List.mem_reverse.1 hd)
  obtain ⟨hlinks, hhead, hlast⟩ := linkChains_links none start (mergeChains env drafts.length drafts)
  refine ⟨hlong, fun c hc => ⟨?_, linkChains_valid _ _ _ c hc⟩, hlinks, hhead, hlast, hdec⟩
  -- a linked chain carries the messages of a merged one
  have hmem : c.msgs ∈ (mergeChains env drafts.length drafts).map (·.msgs) := by
    rw [← linkChains_map_msgs none start]
    exact List.mem_map_of_mem hc
  obtain ⟨d, hd, hdc⟩ := List.mem_map.1 hmem
  rw [← hdc]
  exact mergeChains_ne_nil env _ _ hne d hd

/-- An actor at nonce `0` with `balance`, `1000` gas to store a message, no base fee, and a
chain's reward as its performance. -/
def balanceEnv (balance : ℤ) : SelectEnv ℤ where
  baseFee := 0
  actorAfter _ := some (0, balance)
  onChainMessageGas _ := 1000
  gasPerf reward _ := reward
  priorityAddrs := []

/-- A sender's set with its transfers at nonces `0` and `1`. -/
def twoNonces : AList (fun _ : ℕ => SignedMessage) :=
  ((∅ : AList (fun _ : ℕ => SignedMessage)).insert 0 (MsgSet.transferAt 0)).insert 1 (MsgSet.transferAt 1)

/-- With the balance for both, the chains hold both messages, the longest run. -/
theorem createMessageChains_spec_twoNonces :
    IsLongestRun (balanceEnv (10 ^ 9)) twoNonces 0 (10 ^ 9)
        ((createMessageChains (balanceEnv (10 ^ 9)) keyAddr twoNonces 0).flatMap (·.msgs)) ∧
      (createMessageChains (balanceEnv (10 ^ 9)) keyAddr twoNonces 0).flatMap (·.msgs) =
        [MsgSet.transferAt 0, MsgSet.transferAt 1] := by
  have hall : ∀ e ∈ twoNonces.entries, e.2.message.nonce = e.1 := by decide
  exact ⟨(createMessageChains_spec (balanceEnv (10 ^ 9))
    (fun n m h => hall ⟨n, m⟩ (AList.mem_lookup_iff.1 h)) rfl).1, by decide⟩

/-- **The value may overdraw the balance.**  An actor holding exactly the required funds of its
one message, which also sends `1` attoFIL: the message is kept, though its required funds and
value exceed the balance. -/
theorem createMessageChains_spends_past_balance :
    (createMessageChains (balanceEnv (10 ^ 8)) keyAddr
        ((∅ : AList (fun _ : ℕ => SignedMessage)).insert 0 (transferFrom keyAddr 1)) 0).flatMap (·.msgs) =
      [transferFrom keyAddr 1] ∧
    10 ^ 8 < (transferFrom keyAddr 1).message.requiredFunds + (transferFrom keyAddr 1).message.value := by
  decide

end MessagePool

end Lotus
