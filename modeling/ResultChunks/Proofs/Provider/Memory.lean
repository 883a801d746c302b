import ResultChunks.Proofs.Provider.Calls
import ResultChunks.Proofs.Provider.Run

/-!
# The memory bound

The counter of an open provider is the number of slots that are taken (`Consistent.held`), so the
bound on the counter bounds whatever takes a slot. A chunk that holds batches takes one, and so does
a chunk whose task has a call under way, and no chunk does both. The counter is lowered only for a
chunk that takes a slot, so it is never lowered below zero, and its peak is the largest value that it
has had.
-/

namespace ResultChunks.Provider

/-! ## Counting by index -/

/-- Counting in the front of a list is counting over the indices. -/
theorem countP_take_eq_range {α : Type} (f : α → Bool) (l : List α) (n : Nat) :
    (l.take n).countP f = (List.range n).countP fun i => l[i]?.any f := by
  induction n with
  | zero => rfl
  | succ n ih =>
      rw [List.take_add_one, List.countP_append, List.range_succ, List.countP_append, ih,
        List.countP_singleton]
      cases hl : l[n]? with
      | none => rfl
      | some a => exact congrArg _ List.countP_singleton

/-- Indices at which nothing holds add nothing. -/
theorem countP_range_of_le {f : Nat → Bool} {m n : Nat} (hmn : m ≤ n)
    (h : ∀ i, m ≤ i → f i = false) : (List.range n).countP f = (List.range m).countP f := by
  induction n with
  | zero => rw [Nat.le_zero.1 hmn]
  | succ n ih =>
      rcases Nat.lt_or_ge n m with hlt | hge
      · rw [show m = n + 1 by omega]
      · rw [List.range_succ, List.countP_append, ih hge, List.countP_singleton, h n hge]
        rfl

/-- Two things that exclude each other and both imply a third one. -/
theorem countP_range_add_le {f g h : Nat → Bool} {n : Nat}
    (hle : ∀ i, i < n → (f i).toNat + (g i).toNat ≤ (h i).toNat) :
    (List.range n).countP f + (List.range n).countP g ≤ (List.range n).countP h := by
  induction n with
  | zero => exact Nat.le_refl 0
  | succ n ih =>
      have hn := hle n (Nat.lt_succ_self n)
      have hrest := ih fun i hi => hle i (Nat.lt_succ_of_lt hi)
      have single : ∀ f : Nat → Bool, (List.range (n + 1)).countP f =
          (List.range n).countP f + (f n).toNat := by
        intro f
        rw [List.range_succ, List.countP_append, List.countP_singleton]
        cases f n <;> rfl
      rw [single, single, single]
      omega

/-! ## What takes a slot -/

/-- Does the task of a chunk have a call under way? -/
def World.calling (w : World) (i : Nat) : Bool := (dialogue i w.log).underWay.isSome

/-- The number of chunks whose tasks have a call under way. -/
def World.callsUnderWay (p : Setup) (w : World) : Nat := (List.range p.count).countP w.calling

variable {p : Setup} {w : World}

/-- A task with a call under way waits for its answer, and its chunk is at work. -/
theorem wantsLink_of_calling (h : Consistent p w.state w.points w.broken w.payloads) {i : Nat}
    (ht : w.Talks i) (hcall : w.calling i = true) :
    ∃ d, w.state.store.chunks[i]? = some d ∧ d.status.wantsLink = true ∧ i < w.state.next := by
  have hpoint : w.points i = none := by
    cases hp : w.points i with
    | none => rfl
    | some pt => rw [World.calling, ht.idle hp] at hcall; exact nomatch hcall
  have hawaits := ht.awaits hpoint
  have hno : (dialogue i w.log).underWay ≠ none := by
    intro hnone
    rw [World.calling, hnone] at hcall
    exact nomatch hcall
  cases hph : w.state.tasks[i]? with
  | none => rw [hph] at hawaits; exact absurd hawaits hno
  | some phase =>
      obtain ⟨d, hd⟩ := h.chunk hph
      have hfit := h.fits hd
      rw [hph, hpoint] at hfit
      have hst : phase.Stands (w.broken i) d.status := hfit.stands
      refine ⟨d, hd, ?_, State.lt_next hph⟩
      rw [hph] at hawaits
      -- only three phases wait for an answer, and their statuses all want links
      cases phase with
      | resolving a => have hs : d.status = .pending := hst; rw [hs]; rfl
      | refreshing a => have hs : d.status = .linkResolved := hst; rw [hs]; rfl
      | downloading a =>
          have hs : d.status = downloadStatus (w.broken i) := hst
          rw [hs]
          exact downloadStatus_wantsLink _
      | claimed => exact absurd hawaits hno
      | resolvePause a => exact absurd hawaits hno
      | downloadPause a => exact absurd hawaits hno
      | ended => exact absurd hawaits hno
      | lost => exact absurd hawaits hno

/-- **Batches and calls under way fit into the slots that are taken.** -/
theorem holding_add_calls_le (h : Consistent p w.state w.points w.broken w.payloads)
    (ht : ∀ i, w.Talks i) : w.state.store.holding + w.callsUnderWay p ≤ w.state.held := by
  have holds : ∀ i, (w.state.store.chunks[i]?.any fun d => d.batches.isSome) = true →
      ∃ d, w.state.store.chunks[i]? = some d ∧ d.status = .downloaded ∧ i < w.state.next := by
    intro i hi
    obtain ⟨d, hd, hb⟩ := (Option.any_eq_true _ _).1 hi
    have hs := (h.fits hd).batches.1 hb
    exact ⟨d, hd, hs, State.lt_next ((h.fits hd).ended (Or.inl hs)).1⟩
  -- chunks that are not claimed hold nothing and call for nothing, so both counts stop at `next`
  have hholding : w.state.store.holding = (List.range w.state.next).countP
      fun i => w.state.store.chunks[i]?.any fun d => d.batches.isSome := by
    have hall := countP_take_eq_range (fun d : Descriptor => d.batches.isSome)
      w.state.store.chunks p.count
    rw [← h.size, List.take_length, List.countP_eq_length_filter] at hall
    rw [Store.holding, hall, h.size]
    refine countP_range_of_le h.claimed ?_
    intro i hi
    by_contra hne
    obtain ⟨d, -, -, hlt⟩ := holds i (eq_true_of_ne_false hne)
    omega
  have hcalls : w.callsUnderWay p = (List.range w.state.next).countP w.calling := by
    refine countP_range_of_le h.claimed ?_
    intro i hi
    by_contra hne
    obtain ⟨d, -, -, hlt⟩ := wantsLink_of_calling h (ht i) (eq_true_of_ne_false hne)
    omega
  rw [hholding, hcalls, h.held, State.occupied, countP_take_eq_range]
  refine countP_range_add_le ?_
  intro i hi
  by_cases hb : (w.state.store.chunks[i]?.any fun d => d.batches.isSome) = true
  · -- a downloaded chunk takes a slot, and its task has ended
    obtain ⟨d, hd, hs, -⟩ := holds i hb
    have hquiet : w.calling i = false := by
      by_contra hne
      obtain ⟨d', hd', hw, -⟩ := wantsLink_of_calling h (ht i) (eq_true_of_ne_false hne)
      rw [hd] at hd'
      obtain rfl := Option.some.inj hd'
      rw [hs] at hw
      exact nomatch hw
    rw [hb, hquiet, hd, Option.any_some, hs]
    exact Nat.le_refl 1
  · -- at most the call counts here, and its chunk is at work
    rw [eq_false_of_ne_true hb]
    by_cases hcall : w.calling i = true
    · obtain ⟨d, hd, hw, -⟩ := wantsLink_of_calling h (ht i) hcall
      rw [hcall, hd, Option.any_some, ChunkStatus.occupies_of_wantsLink hw]
      exact Nat.le_refl 1
    · rw [eq_false_of_ne_true hcall]
      exact Nat.zero_le _

/-! ## The peak -/

/-- The peak rises only to a value that the counter takes. -/
structure Counts (s s' : State) : Prop where
  le : s'.held ≤ s'.peak
  mono : s.peak ≤ s'.peak
  exact : s'.peak = s.peak ∨ s'.peak = s'.held

namespace Counts

variable {s s' : State}

/-- A counter that does not rise leaves the peak alone. -/
theorem of_le (h : s.held ≤ s.peak) (hheld : s'.held ≤ s.held) (hpeak : s'.peak = s.peak) :
    Counts s s' := ⟨by omega, by omega, Or.inl hpeak⟩

theorem fill (h : s.held ≤ s.peak) : Counts s (s.fill p).state := by
  refine State.fill_keeps (P := Counts s) ?_ (of_le h (Nat.le_refl _) rfl)
  intro t _ ht
  obtain ⟨hle, hmono, hexact⟩ := ht
  have hheld : (t.claim p).state.held = t.held + 1 := rfl
  have hpeak : (t.claim p).state.peak = max t.peak (t.held + 1) := rfl
  exact ⟨by omega, by omega, by omega⟩

theorem complete {points : Nat → Option Point} {broken : Nat → Bool}
    {payloads : Nat → List Download} {i : Nat} {r : TaskResult}
    (hs : Consistent p s points broken payloads) (hc : s.closed = false)
    (hp : points i = some (.finish r)) (h : s.held ≤ s.peak) (now : Moment) :
    Counts s (s.complete now i r).state := by
  obtain ⟨phase, ht, -⟩ := hs.running hp
  obtain ⟨d, hd⟩ := hs.chunk ht
  have hfit := hs.fits hd
  rw [ht, hp] at hfit
  rcases complete_cases now hc hd hfit with ⟨dl, -, -, heq⟩ | ⟨e, heq, -⟩
  · rw [heq]
    exact of_le h (Nat.le_refl _) rfl
  · rw [heq]
    exact of_le h (Nat.sub_le _ _) rfl

theorem consumes (hs : s.Consumes s') :
    s'.held ≤ s.held ∧ s'.peak = s.peak := by
  cases hs with
  | nothing _ => exact ⟨Nat.le_refl _, rfl⟩
  | one _ _ _ => exact ⟨Nat.sub_le _ _, rfl⟩

theorem moves {r : State × List Effect × Progress} (h : s.held ≤ s.peak) (hr : s.Moves p r) :
    Counts s r.1 := by
  cases hr with
  | again _ => exact of_le h (Nat.le_refl _) rfl
  | past effects _ hr _ => exact of_le h (consumes hr).1 (consumes hr).2
  | ahead effects _ hr _ => exact of_le h (consumes hr).1 (consumes hr).2

end Counts

namespace World

/-- The peak is the largest value that the counter has had, and within the bound. -/
structure Peaks (p : Setup) (w : World) : Prop where
  present : w.state ∈ w.past
  bounds : ∀ s ∈ w.past, s.held ≤ w.state.peak
  reached : ∃ s ∈ w.past, s.held = w.state.peak
  allowed : w.state.peak ≤ p.allowed

theorem Peaks.counts {w w' : World} (h : Peaks p w) (hpast : w'.past = w'.state :: w.past)
    (hbound : w'.state.held ≤ p.allowed) (hc : Counts w.state w'.state) : Peaks p w' where
  present := by rw [hpast]; exact List.mem_cons_self
  bounds := by
    intro s hs
    rw [hpast] at hs
    rcases List.mem_cons.1 hs with rfl | hs
    · exact hc.le
    · exact Nat.le_trans (h.bounds s hs) hc.mono
  reached := by
    rcases hc.exact with heq | heq
    · obtain ⟨s, hs, hheld⟩ := h.reached
      exact ⟨s, by rw [hpast]; exact List.mem_cons_of_mem _ hs, hheld.trans heq.symm⟩
    · exact ⟨w'.state, by rw [hpast]; exact List.mem_cons_self, heq.symm⟩
  allowed := by
    rcases hc.exact with heq | heq
    · rw [heq]; exact h.allowed
    · rw [heq]; exact hbound

theorem peaks_start {m : Manifest} {config : FetchConfig} {method : Method} {opened : Move}
    (hcreate : create m config method = .ok (p, opened)) (now : Moment)
    (hopen : (start now opened).state.closed = false) : Peaks p (start now opened) := by
  -- before the first claim, counter and peak are zero
  have hcounts : Counts (State.ofManifest m) opened.state := by
    obtain ⟨rfl, entry, rfl⟩ := create_eq hcreate
    exact Counts.fill (Nat.le_refl 0)
  have hexact : opened.state.held = opened.state.peak := by
    rcases hcounts.exact with heq | heq
    · have hle := hcounts.le
      rw [heq] at hle
      exact (Nat.le_zero.1 hle).trans heq.symm
    · exact heq.symm
  refine ⟨List.mem_singleton_self _, ?_, ⟨_, List.mem_singleton_self _, hexact⟩, ?_⟩
  · intro s hs
    obtain rfl := List.mem_singleton.1 hs
    exact hcounts.le
  · exact hexact ▸ (sound_start hcreate now hopen).bound

theorem peaks_reachable {m : Manifest} {config : FetchConfig} {method : Method} {opened : Move}
    (hcreate : create m config method = .ok (p, opened)) (h : Reachable p opened w) :
    w.state.closed = false → Peaks p w := by
  refine h.keeps (P := fun w => w.state.closed = false → Peaks p w) (peaks_start hcreate) ?_
  · intro w w' hw ih htaken hopen'
    have hopen := htaken.open hopen'
    have hsound := sound_reachable hcreate hw hopen
    have hpeaks := ih hopen
    have hbound := (sound_taken (sound_reachable hcreate hw) htaken hopen').bound
    have hle := hpeaks.bounds _ hpeaks.present
    cases htaken with
    | @heard i signal l now addition hp hl =>
        have hq := State.hear_quiet hl
        exact hpeaks.counts rfl hbound (Counts.of_le hle (Nat.le_of_eq hq.held) hq.peak)
    | @ran i pt now addition hp =>
        refine hpeaks.counts rfl hbound ?_
        by_cases hpt : ∃ r, pt = .finish r
        · obtain ⟨r, rfl⟩ := hpt
          exact Counts.complete hsound hopen hp hle now
        · have hq := State.leg_quiet p w.state now addition i (not_exists.1 hpt)
          exact Counts.of_le hle (Nat.le_of_eq hq.held) hq.peak
    | called now hk =>
        refine hpeaks.counts (by rw [past_runReader, state_runReader]) hbound ?_
        rw [state_runReader]
        exact Counts.moves hle (State.moveOn_moves hopen hsound.size)
    | filled now hk => exact hpeaks.counts rfl hbound (Counts.fill hle)
    | @looked k n now hk =>
        refine hpeaks.counts (by rw [past_runReader, state_runReader]) hbound ?_
        obtain ⟨current, surfaced, hframe⟩ := State.look_frame w.state now.elapsed n
        rw [state_runReader, hframe]
        exact Counts.of_le hle (Nat.le_refl _) rfl
    | abandoned hk => exact ⟨hpeaks.present, hpeaks.bounds, hpeaks.reached, hpeaks.allowed⟩
    | closed now => exact absurd hopen' (not_open_of_close w now)

end World

/-! ## The bound -/

/-- **The slots of an open provider are counted exactly.** In every reachable world whose provider is
open, the counter is the number of claimed chunks that were neither consumed nor failed, it is within
the bound, the chunks that hold batches and the calls under way fit into it, its peak is the largest
value it has had, and it is not zero when a task is about to settle its chunk, nor when the chunk
handed out last is to be consumed. -/
theorem slots_exact {m : Manifest} {config : FetchConfig} {method : Method} {opened : Move}
    (hcreate : create m config method = .ok (p, opened)) (hw : World.Reachable p opened w)
    (hopen : w.state.closed = false) :
    w.state.held = w.state.occupied
      ∧ w.state.held ≤ min config.maxParallel m.count
      ∧ w.state.store.holding + w.callsUnderWay p ≤ w.state.held
      ∧ ((∀ s ∈ w.past, s.held ≤ w.state.peak) ∧ ∃ s ∈ w.past, s.held = w.state.peak)
      ∧ w.state.peak ≤ min config.maxParallel m.count
      ∧ (∀ i r, w.points i = some (.finish r) → 0 < w.state.held)
      ∧ ∀ (i : Nat) (d : Descriptor), w.state.store.chunks[i]? = some d →
          d.status = .downloaded → 0 < w.state.held := by
  have hsound := World.sound_reachable hcreate hw hopen
  have hpeaks := World.peaks_reachable hcreate hw hopen
  have hallowed : p.allowed = min config.maxParallel m.count := by
    obtain ⟨rfl, -⟩ := create_eq hcreate
    rfl
  refine ⟨hsound.held, hallowed ▸ hsound.bound,
    holding_add_calls_le hsound (World.talks_reachable hcreate hw hopen),
    ⟨hpeaks.bounds, hpeaks.reached⟩, hallowed ▸ hpeaks.allowed, ?_, ?_⟩
  · intro i r hp
    obtain ⟨phase, ht, -⟩ := hsound.running hp
    obtain ⟨d, hd⟩ := hsound.chunk ht
    have hfit := hsound.fits hd
    rw [hp] at hfit
    rw [hsound.held]
    exact State.occupied_pos (State.lt_next ht) hd
      (ChunkStatus.occupies_of_wantsLink hfit.wantsLink_of_finish)
  · intro i d hd hs
    rw [hsound.held]
    exact State.occupied_pos (State.lt_next ((hsound.fits hd).ended (Or.inl hs)).1) hd
      (by rw [hs]; rfl)

namespace Sample

/-- A link for the first chunk alone. -/
def firstLink (i : Nat) : Option Link := if i = 0 then some (linkUntil 100 i) else none

/-- Chunk 0 is downloaded while the call for the link of chunk 1 is under way. -/
def halfway : List Tick :=
  stretch 0 .start 3 ++ stretch 1 .start 2 ++ stretch 0 (.payload (.ok (payload 0))) 1

end Sample

/-- Both slots are taken halfway, by batches and by a call. -/
theorem slots_exact_halfway :
    ∃ w, World.Reachable (Sample.opened Sample.firstLink).1 (Sample.opened Sample.firstLink).2 w
      ∧ w.state.store.holding = 1 ∧ w.callsUnderWay (Sample.opened Sample.firstLink).1 = 1
      ∧ w.state.occupied = 2 ∧ w.state.peak ≤ 2 := by
  obtain ⟨w, hw, hopen, hheld, hholding, hcalls⟩ : ∃ w,
      World.Reachable (Sample.opened Sample.firstLink).1 (Sample.opened Sample.firstLink).2 w
        ∧ w.state.closed = false ∧ w.state.held = 2 ∧ w.state.store.holding = 1
        ∧ w.callsUnderWay (Sample.opened Sample.firstLink).1 = 1 :=
    World.exists_reachable Sample.dawn Sample.halfway (by decide +kernel)
  obtain ⟨hexact, -, -, -, hpeak, -, -⟩ :=
    slots_exact (Sample.create_opened Sample.firstLink) hw hopen
  exact ⟨w, hw, hholding, hcalls, by rw [← hexact, hheld], hpeak⟩

end ResultChunks.Provider
