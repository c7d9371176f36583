import Mathlib
import Lotus.Lib.Bitfield

/-!
# Submitting window PoSts (`storage/wdpost_run.go`)

`runSubmitPoST` fetches the chain randomness for the deadline once, writes it into every
`SubmitWindowedPoStParams`, and pushes one `SubmitWindowedPoSt` message for each through
`submitPoStMessage`.  `startSubmitPoST` hands the error it returns to the submit-complete
callback.

The node's APIs are the fields of `WdPoStApi`: each call's result is a parameter, so every
theorem holds for every answer the node may give.  `prepareMessage` (miner info, gas estimation,
address selection) is one of them.  Message CIDs are numbers, byte strings lists of bytes and
bitfields finite sets of sector numbers.

The loop declares its own `submitErr` with `:=`, which shadows the `submitErr` declared before
it, so what `runSubmitPoST` returns after the loop is the outer one, which nothing assigns: the
failures of the pushes never reach the caller (`runSubmitPoST_err_of_rand`).
-/

namespace Lotus

namespace Storage

/-- `miner.PoStPartition`: a partition's index in its deadline and the sectors the proof skips. -/
structure PoStPartition where
  index : ℕ
  skipped : Finset ℕ
  deriving DecidableEq

/-- `miner.SubmitWindowedPoStParams`. -/
structure SubmitWindowedPoStParams where
  deadline : ℕ
  partitions : List PoStPartition
  proofs : List (List UInt8)
  chainCommitEpoch : ℤ
  chainCommitRand : List UInt8
  deriving DecidableEq

/-- `dline.Info`, with the fields the storage code reads; `open'` is the source's `Open`.  Its
`FaultCutoff` and the policy constants it carries are read by nothing modelled. -/
structure DeadlineInfo where
  currentEpoch : ℤ
  periodStart : ℤ
  index : ℕ
  open' : ℤ
  close : ℤ
  challenge : ℤ
  deriving DecidableEq, Repr

/-- The answers of the node's APIs that submitting reads. -/
structure WdPoStApi where
  stateNetworkVersion : Except String ℕ
  chainGetRandomnessFromTickets : ℤ → Except String (List UInt8)
  serializeParams : SubmitWindowedPoStParams → Except String (List UInt8)
  prepareMessage : List UInt8 → Except String Unit
  mpoolPushMessage : List UInt8 → Except String ℕ

/-- `network.Version4`. -/
def networkVersion4 : ℕ := 4

/-- `submitPoStMessage`: the CID of the pushed message, or the error. -/
def submitPoStMessage (api : WdPoStApi) (proof : SubmitWindowedPoStParams) : Except String ℕ :=
  match api.serializeParams proof with
  | .error aerr => .error ("could not serialize submit window post parameters: " ++ aerr)
  | .ok enc =>
    match api.prepareMessage enc with
    | .error err => .error err
    | .ok () =>
      match api.mpoolPushMessage enc with
      | .error err => .error ("pushing message to mpool: " ++ err)
      | .ok sm => .ok sm

/-- The epoch whose randomness the PoSts commit to: the challenge epoch from network version 4
on, the deadline's opening epoch before it or when the version is unknown. -/
def commEpoch (api : WdPoStApi) (deadline : DeadlineInfo) : ℤ :=
  match api.stateNetworkVersion with
  | .error _ => deadline.open'
  | .ok ver => if ver ≥ networkVersion4 then deadline.challenge else deadline.open'

/-- `runSubmitPoST` on a tipset of height `height`: the proofs events recorded (each pushed
message with its partitions) and the returned error. -/
def runSubmitPoST (api : WdPoStApi) (height : ℤ) (deadline : DeadlineInfo)
    (posts : List SubmitWindowedPoStParams) : List (List PoStPartition × ℕ) × Option String :=
  if posts.isEmpty then ([], none)
  else
    let commEpoch := commEpoch api deadline
    match api.chainGetRandomnessFromTickets commEpoch with
    | .error err =>
      ([], some ("failed to get chain randomness from tickets for windowPost (ts=" ++
        toString height ++ "; deadline=" ++ toString commEpoch ++ "): " ++ err))
    | .ok commRand =>
      let submitErr : Option String := none
      let recorded := posts.foldl (fun recorded post =>
          let post := { post with chainCommitEpoch := commEpoch, chainCommitRand := commRand }
          -- `sm, submitErr := ...` declares a new `submitErr` for this iteration only
          match submitPoStMessage api post with
          | .error _ => recorded
          | .ok sm => recorded ++ [(post.partitions, sm)]) []
      (recorded, submitErr)

/-- `startSubmitPoST`: the error the submit-complete callback receives. -/
def startSubmitPoST (api : WdPoStApi) (height : ℤ) (deadline : DeadlineInfo)
    (posts : List SubmitWindowedPoStParams) : Option String :=
  (runSubmitPoST api height deadline posts).2

/-- The proofs event `runSubmitPoST` records for a post stamped with the randomness, if its
push succeeds. -/
def pushedEvent (api : WdPoStApi) (epoch : ℤ) (rand : List UInt8)
    (post : SubmitWindowedPoStParams) : Option (List PoStPartition × ℕ) :=
  let post := { post with chainCommitEpoch := epoch, chainCommitRand := rand }
  (submitPoStMessage api post).toOption.map fun sm => (post.partitions, sm)

/-- The push loop records, after what it had, an event for each post whose push succeeded. -/
theorem foldl_submit (api : WdPoStApi) (epoch : ℤ) (rand : List UInt8) :
    ∀ (posts : List SubmitWindowedPoStParams) (acc : List (List PoStPartition × ℕ)),
      posts.foldl (fun recorded post =>
          let post := { post with chainCommitEpoch := epoch, chainCommitRand := rand }
          match submitPoStMessage api post with
          | .error _ => recorded
          | .ok sm => recorded ++ [(post.partitions, sm)]) acc =
        acc ++ posts.filterMap (pushedEvent api epoch rand)
  | [], acc => by simp
  | post :: posts, acc => by
    rw [List.foldl_cons, List.filterMap_cons, foldl_submit api epoch rand posts]
    cases h : submitPoStMessage api
        { post with chainCommitEpoch := epoch, chainCommitRand := rand } with
    | error e => simp [pushedEvent, h, Except.toOption]
    | ok sm => simp [pushedEvent, h, Except.toOption]

/-- Once the randomness is there, `runSubmitPoST` records the pushes that succeeded and returns
no error, whichever pushes failed. -/
theorem runSubmitPoST_err_of_rand (api : WdPoStApi) (height : ℤ) (deadline : DeadlineInfo)
    (posts : List SubmitWindowedPoStParams) (hne : posts ≠ []) (rand : List UInt8)
    (hrand : api.chainGetRandomnessFromTickets (commEpoch api deadline) = .ok rand) :
    runSubmitPoST api height deadline posts =
      (posts.filterMap (pushedEvent api (commEpoch api deadline) rand), none) := by
  have hne' : posts.isEmpty = false := List.isEmpty_eq_false_iff.mpr hne
  simp only [runSubmitPoST, hne', Bool.false_eq_true, if_false, hrand]
  rw [foldl_submit, List.nil_append]

end Storage

end Lotus
