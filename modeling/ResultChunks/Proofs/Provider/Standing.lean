import ResultChunks.Proofs.Provider.Quiet

/-!
# Where a chunk stands

A chunk's status, its task and what its task has heard so far go together. `Fits` says how, for one
chunk: which status each point of the task allows, what the descriptor holds, and what became of a
payload that arrived.

One thing does not go as it should. A task that asks for a new link in the middle of an attempt sets
its chunk back to `linkResolved` and returns it to `downloading` once the link is there. If the
question fails, the chunk stays behind, and the next attempt may still find a fresh link that some
other task has brought. `broken` says that the last answer with links was a failure; a chunk that is
downloaded while its task is broken is not in `downloading`.
-/

namespace ResultChunks

/-- A status that only a chunk with a link has. -/
def ChunkStatus.hasLink : ChunkStatus → Bool
  | .linkResolved | .downloading | .downloaded | .consumed => true
  | _ => false

namespace Provider

/-- Whether a task is broken after a signal: it is once a question for links failed, and no longer
once one was answered. -/
def Signal.breaks (broken : Bool) : Signal → Bool
  | .links (.error _) => true
  | .links (.ok _) => false
  | _ => broken

/-- The payload that a signal brings. -/
def Signal.brings : Signal → List Download
  | .payload (.ok dl) => [dl]
  | _ => []

/-- The status of a chunk during an attempt at its payload. -/
def downloadStatus (broken : Bool) : ChunkStatus := if broken then .linkResolved else .downloading

/-- The task can still run. -/
def Phase.running : Phase → Bool
  | .ended | .lost => false
  | _ => true

/-- The statuses of a chunk whose task waits. -/
def Phase.Stands (broken : Bool) (st : ChunkStatus) : Phase → Prop
  | .claimed => st = .pending ∧ broken = false
  | .resolving _ | .resolvePause _ => st = .pending
  | .downloading _ | .downloadPause _ => st = downloadStatus broken
  | .refreshing _ => st = .linkResolved
  | .ended => st = .downloaded ∨ st = .consumed ∨ st = .failed
  | .lost => st.wantsLink = true

/-- The statuses of a chunk whose task is about to run a leg. -/
def Point.Stands (broken : Bool) (st : ChunkStatus) : Point → Prop
  | .ensure | .apply _ _ | .mark _ => st = .pending ∧ broken = false
  | .ask _ _ => st = .pending
  | .begin | .applyRefreshed _ _ | .resume _ => st = .linkResolved ∧ broken = false
  | .attempt _ | .refresh _ => st = downloadStatus broken
  | .finish ⟨.ok _, _⟩ => st = downloadStatus broken
  | .finish ⟨.error _, _⟩ => st.wantsLink = true

/-- The statuses of a chunk, claimed or not. -/
def Stands (broken : Bool) (st : ChunkStatus) : Option Phase → Option Point → Prop
  | none, none => st = .pending ∧ broken = false
  | none, some _ => False
  | some phase, none => phase.Stands broken st
  | some phase, some pt => phase.running = true ∧ pt.Stands broken st

/-- The error of a chunk whose payload arrived while its task was broken. -/
def lostPayload (i : Nat) : FetchError := .invalidState (.noTransition i .linkResolved .downloaded)

/-- What became of the payloads that arrived for a chunk: nothing yet, batches that are held or were
consumed, or the one failure that a broken task brings about. -/
def Settles (i : Nat) (broken : Bool) (payloads : List Download) (d : Descriptor) : Prop :=
  match d.status with
  | .downloaded => ∃ dl, payloads = [dl] ∧ d.batches = some dl.batches ∧ broken = false
  | .consumed => ∃ dl, payloads = [dl] ∧ broken = false
  | .failed => payloads = []
      ∨ ∃ dl, payloads = [dl] ∧ broken = true ∧ d.error = some (lostPayload i)
  | _ => payloads = []

/-- What became of the payloads, given the point of the task. -/
def Paid (i : Nat) (broken : Bool) (payloads : List Download) (d : Descriptor) :
    Option Point → Prop
  | some (.finish ⟨.ok dl, _⟩) => payloads = [dl]
  | _ => Settles i broken payloads d

/-- **A chunk, its task and what the task has heard go together.** -/
structure Fits (i : Nat) (phase : Option Phase) (point : Option Point) (broken : Bool)
    (payloads : List Download) (d : Descriptor) : Prop where
  /-- The point of the task allows the status. -/
  stands : Stands broken d.status phase point
  /-- Past `pending` a chunk has a link, unless it failed. -/
  linked : d.status.hasLink = true → d.link.isSome = true
  /-- A chunk that is about to be noted as linked has a link. -/
  marked : ∀ n, point = some (.mark n) → d.link.isSome = true
  /-- A chunk holds batches while it is downloaded. -/
  batches : d.batches.isSome = true ↔ d.status = .downloaded
  /-- A chunk has an error when it failed. -/
  error : d.error.isSome = true ↔ d.status = .failed
  /-- What became of the payloads. -/
  paid : Paid i broken payloads d point

/-- The point at which a payload arrived and is not stored yet. -/
def Point.bringsPayload : Point → Bool
  | .finish ⟨.ok _, _⟩ => true
  | _ => false

/-- A chunk that is at work: it may have a link, and holds nothing else. -/
structure AtWork (payloads : List Download) (d : Descriptor) : Prop where
  wants : d.status.wantsLink = true
  batches : d.batches = none
  error : d.error = none
  linked : d.status.hasLink = true → d.link.isSome = true
  payloads : payloads = []

section

variable {i : Nat} {phase : Option Phase} {point : Option Point} {broken : Bool}
  {payloads : List Download} {d : Descriptor}

theorem downloadStatus_wantsLink (broken : Bool) : (downloadStatus broken).wantsLink = true := by
  cases broken <;> rfl

theorem downloadStatus_hasLink (broken : Bool) : (downloadStatus broken).hasLink = true := by
  cases broken <;> rfl

/-- A chunk is at work until its task has ended. -/
theorem Stands.cases {st : ChunkStatus} (h : Stands broken st phase point) :
    st.wantsLink = true ∨ (phase = some .ended ∧ point = none
      ∧ (st = .downloaded ∨ st = .consumed ∨ st = .failed)) := by
  have pending : st = .pending → st.wantsLink = true := by rintro rfl; rfl
  have resolved : st = .linkResolved → st.wantsLink = true := by rintro rfl; rfl
  have downloads : st = downloadStatus broken → st.wantsLink = true := by
    rintro rfl; exact downloadStatus_wantsLink broken
  match phase, point with
  | none, none => exact Or.inl (pending h.1)
  | none, some _ => exact h.elim
  | some ph, none =>
      cases ph with
      | claimed => exact Or.inl (pending h.1)
      | resolving a => exact Or.inl (pending h)
      | resolvePause a => exact Or.inl (pending h)
      | downloading a => exact Or.inl (downloads h)
      | refreshing a => exact Or.inl (resolved h)
      | downloadPause a => exact Or.inl (downloads h)
      | ended => exact Or.inr ⟨rfl, rfl, h⟩
      | lost => exact Or.inl h
  | some ph, some pt =>
      have hpt := h.2
      left
      cases pt with
      | ensure => exact pending hpt.1
      | ask request a => exact pending hpt
      | apply links n => exact pending hpt.1
      | mark n => exact pending hpt.1
      | begin => exact resolved hpt.1
      | attempt a => exact downloads hpt
      | refresh a => exact downloads hpt
      | applyRefreshed links a => exact resolved hpt.1
      | resume a => exact resolved hpt.1
      | finish r =>
          obtain ⟨_ | dl, n⟩ := r
          · exact hpt
          · exact downloads hpt

namespace AtWork

/-- A chunk at work fits as soon as the task allows its status. -/
theorem fits (h : AtWork payloads d) (hs : Stands broken d.status phase point)
    (hm : ∀ n, point = some (.mark n) → d.link.isSome = true)
    (hp : ∀ pt, point = some pt → pt.bringsPayload = false) :
    Fits i phase point broken payloads d where
  stands := hs
  linked := h.linked
  marked := hm
  batches := by
    rw [h.batches]
    constructor
    · exact nofun
    · intro hd; have hw := h.wants; rw [hd] at hw; exact nomatch hw
  error := by
    rw [h.error]
    constructor
    · exact nofun
    · intro hd; have hw := h.wants; rw [hd] at hw; exact nomatch hw
  paid := by
    have hw := h.wants
    have hset : Settles i broken payloads d := by
      unfold Settles
      cases hd : d.status <;> rw [hd] at hw <;> first | exact h.payloads | exact nomatch hw
    unfold Paid
    split
    · rename_i dl n; exact nomatch hp _ rfl
    · exact hset

/-- A chunk with a link stays at work whatever status at work it takes. -/
theorem withStatus (h : AtWork payloads d) {st : ChunkStatus} (hst : st.wantsLink = true)
    (hl : d.link.isSome = true) : AtWork payloads { d with status := st } :=
  ⟨hst, h.batches, h.error, fun _ => hl, h.payloads⟩

theorem relink (h : AtWork payloads d) {o : Option Link}
    (ho : d.link.isSome = true → o.isSome = true) : AtWork payloads { d with link := o } :=
  ⟨h.wants, h.batches, h.error, fun hl => ho (h.linked hl), h.payloads⟩

end AtWork

namespace Fits

/-- A chunk whose status is one of work is at work, unless its payload arrived. -/
theorem atWork (h : Fits i phase point broken payloads d) (hw : d.status.wantsLink = true)
    (hp : ∀ pt, point = some pt → pt.bringsPayload = false) : AtWork payloads d where
  wants := hw
  batches := by
    have hs : d.status ≠ .downloaded := by rintro hs; rw [hs] at hw; exact nomatch hw
    exact Option.not_isSome_iff_eq_none.1 fun hb => hs (h.batches.1 hb)
  error := by
    have hs : d.status ≠ .failed := by rintro hs; rw [hs] at hw; exact nomatch hw
    exact Option.not_isSome_iff_eq_none.1 fun he => hs (h.error.1 he)
  linked := h.linked
  payloads := by
    have hpd := h.paid
    unfold Paid at hpd
    split at hpd
    · rename_i dl n; exact nomatch hp _ rfl
    · unfold Settles at hpd
      cases hd : d.status <;> rw [hd] at hpd hw <;> first | exact hpd | exact nomatch hw

/-- A new link does not change how a chunk fits. -/
theorem relink (h : Fits i phase point broken payloads d) {o : Option Link}
    (ho : d.link.isSome = true → o.isSome = true) :
    Fits i phase point broken payloads { d with link := o } where
  stands := h.stands
  linked := fun hl => ho (h.linked hl)
  marked := fun n hn => ho (h.marked n hn)
  batches := h.batches
  error := h.error
  paid := by
    have hp := h.paid
    unfold Paid at hp ⊢
    split at hp <;> exact hp

/-- The task of a downloaded, consumed or failed chunk has ended. -/
theorem ended (h : Fits i phase point broken payloads d)
    (hs : d.status = .downloaded ∨ d.status = .consumed ∨ d.status = .failed) :
    phase = some .ended ∧ point = none := by
  rcases h.stands.cases with hw | ⟨hph, hpt, -⟩
  · rcases hs with hs | hs | hs <;> (rw [hs] at hw; exact nomatch hw)
  · exact ⟨hph, hpt⟩

/-- The chunk of a task that has ended is settled. -/
theorem settled_of_ended (h : Fits i (some .ended) point broken payloads d) :
    d.status = .downloaded ∨ d.status = .consumed ∨ d.status = .failed := by
  have hst := h.stands
  cases point with
  | none => exact hst
  | some pt => exact nomatch hst.1

/-- The chunk of a task that ends is at work. -/
theorem wantsLink_of_finish {r : TaskResult}
    (h : Fits i phase (some (.finish r)) broken payloads d) : d.status.wantsLink = true := by
  rcases h.stands.cases with hw | ⟨-, hpt, -⟩
  · exact hw
  · exact nomatch hpt

/-- An open provider has no released chunks. -/
theorem ne_released (h : Fits i phase point broken payloads d) : d.status ≠ .released := by
  intro hs
  rcases h.stands.cases with hw | ⟨-, -, hsettled⟩
  · rw [hs] at hw
    exact nomatch hw
  · rw [hs] at hsettled
    rcases hsettled with h | h | h <;> exact nomatch h

end Fits

end

end Provider

end ResultChunks
