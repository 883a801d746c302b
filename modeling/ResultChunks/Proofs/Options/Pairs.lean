import Mathlib.Data.List.Induction
import ResultChunks.Options.Setting

/-!
# What pairs of texts make of options

Options are kept in place and set key by key. `Edit.set` sets one of them as it is done in place, where
everything written before a failure stays written, and `Edit.set_on` says that it comes to the same as
`Options.set`, which returns new options or a fault: a value that cannot be read leaves no trace.

A pair writes one setting at most, and options are their settings and nothing else (`ofSettings`). So
what a list of pairs comes to is said setting by setting: the last pair for it counts, and else its
default (`settled`). Only the pairs for a setting and their order matter to it. Pairs for different
settings can change places, and pairs with unknown keys can come and go (`Rearranged`). It does not
matter that the options in between may be refused then, because only the last ones are checked.
-/

namespace ResultChunks

namespace Setting

theorem mem_keys_of_ofKey? {key : String} {s : Setting} (h : ofKey? key = some s) :
    (key, s) ∈ keys := by
  obtain ⟨before, after, heq, -⟩ := List.lookup_eq_some_iff.1 h
  rw [heq]
  exact List.mem_append_right _ List.mem_cons_self

/-- A setting has one key, but for the number of chunks. -/
theorem key_unique {a b : String} {s : Setting} (ha : ofKey? a = some s) (hb : ofKey? b = some s) :
    a = b ∨ s = .maxParallel := by
  have hkeys : ∀ x ∈ keys, ∀ y ∈ keys, x.2 = y.2 → x.1 = y.1 ∨ x.2 = .maxParallel := by
    decide +kernel
  exact hkeys _ (mem_keys_of_ofKey? ha) _ (mem_keys_of_ofKey? hb) rfl

/-- No key is hidden by another. -/
theorem ofKey?_of_mem {k : String × Setting} (hk : k ∈ keys) : ofKey? k.1 = some k.2 := by
  have hall : ∀ k ∈ keys, ofKey? k.1 = some k.2 := by decide +kernel
  exact hall k hk

/-- Every setting has a key. -/
theorem exists_key (s : Setting) : ∃ key, ofKey? key = some s := by
  have hkey : ∃ k ∈ keys, k.2 = s := by cases s <;> decide
  obtain ⟨k, hk, rfl⟩ := hkey
  exact ⟨k.1, ofKey?_of_mem hk⟩

/-- The number of chunks has two. -/
theorem ofKey?_eq_maxParallel_iff {key : String} : ofKey? key = some .maxParallel ↔
    key = "databricks.cloudfetch.max_parallel_downloads" ∨
      key = "databricks.cloudfetch.max_chunks_in_memory" := by
  constructor
  · intro h
    have hkeys : ∀ x ∈ keys, x.2 = .maxParallel →
        x.1 = "databricks.cloudfetch.max_parallel_downloads" ∨
          x.1 = "databricks.cloudfetch.max_chunks_in_memory" := by
      decide +kernel
    exact hkeys _ (mem_keys_of_ofKey? h) rfl
  · rintro (rfl | rfl)
    · exact ofKey?_of_mem (k := (_, .maxParallel)) (List.mem_cons_of_mem _ List.mem_cons_self)
    · exact ofKey?_of_mem (k := (_, .maxParallel))
        (List.mem_cons_of_mem _ (List.mem_cons_of_mem _ List.mem_cons_self))

end Setting

namespace Options

/-! ## Options as settings -/

/-- The options with a value for each setting. -/
def ofSettings (value : (s : Setting) → s.Value) : Options where
  fetch :=
    { maxParallel := value .maxParallel, expiryBuffer := value .expiryBuffer
      readyTimeout := value .readyTimeout, speedThreshold := value .speedThreshold
      enabled := value .enabled
      retry :=
        { retryUnavailable := value .retryUnavailable, retryRateLimited := value .retryRateLimited
          unavailableTimeout := value .unavailableTimeout, rateLimitTimeout := value .rateLimitTimeout
          maxRetries := value .maxRetries, baseDelay := value .baseDelay
          maxDelay := value .maxDelay, maxJitter := value .maxJitter } }
  http :=
    { connectTimeout := value .connectTimeout, readTimeout := value .readTimeout
      maxConnectionsPerHost := value .maxConnections, userAgent := value .userAgent
      proxy := value .proxy }
  log := { level := value .logLevel, file := value .logFile }

@[simp] theorem get_ofSettings (value : (s : Setting) → s.Value) (s : Setting) :
    s.get (ofSettings value) = value s := by
  cases s <;> rfl

/-- **The settings are all there is to options.** -/
theorem eq_of_get {a b : Options} (h : ∀ s : Setting, s.get a = s.get b) : a = b := by
  have hvalues : (fun s : Setting => s.get a) = fun s => s.get b := funext h
  calc a = ofSettings (fun s => s.get a) := rfl
    _ = ofSettings (fun s => s.get b) := by rw [hvalues]
    _ = b := rfl

/-! ## One pair -/

/-- If the key of a pair is known, its value can be read. -/
def Reads (pair : String × String) : Prop :=
  ∀ s, Setting.ofKey? pair.1 = some s → (s.parse? pair.2).isSome = true

/-- What a pair comes to. -/
inductive Sets (o : Options) (key value : String) : Except ConfigFault Options → Prop where
  | unknown (hkey : Setting.ofKey? key = none) : Sets o key value (.ok o)
  | known {s : Setting} {v : s.Value} (hkey : Setting.ofKey? key = some s)
      (hvalue : s.parse? value = some v) : Sets o key value (.ok (s.put v o))
  | unreadable {s : Setting} (hkey : Setting.ofKey? key = some s) (hvalue : s.parse? value = none) :
      Sets o key value (.error (.badValue key value))

variable {o o' : Options} {key value : String} {s : Setting} {pairs others : List (String × String)}

theorem sets_set (o : Options) (key value : String) : Sets o key value (o.set key value) := by
  rw [set]
  split
  · exact .unknown ‹_›
  · split
    · exact .unreadable ‹_› ‹_›
    · exact .known ‹_› ‹_›

theorem reads_iff_of_sets {result : Except ConfigFault Options} (h : Sets o key value result) :
    (∃ o', result = .ok o') ↔ Reads (key, value) := by
  cases h with
  | unknown hkey =>
    refine iff_of_true ⟨o, rfl⟩ fun s hs => ?_
    rw [hkey] at hs
    cases hs
  | @known s v hkey hvalue =>
    refine iff_of_true ⟨_, rfl⟩ fun t ht => ?_
    obtain rfl := Option.some.inj (hkey.symm.trans ht)
    exact Option.isSome_of_eq_some hvalue
  | @unreadable s hkey hvalue =>
    refine iff_of_false ?_ fun hreads => ?_
    · rintro ⟨o', h⟩
      cases h
    · have hsome := hreads s hkey
      rw [hvalue] at hsome
      cases hsome

/-- A pair gives its setting the value that is read, and leaves all others. -/
theorem get_of_set (h : o.set key value = .ok o') (t : Setting) :
    (Setting.ofKey? key = some t → t.parse? value = some (t.get o')) ∧
      (Setting.ofKey? key ≠ some t → t.get o' = t.get o) := by
  have hsets := sets_set o key value
  rw [h] at hsets
  cases hsets with
  | unknown hkey =>
    refine ⟨fun ht => ?_, fun _ => rfl⟩
    rw [hkey] at ht
    cases ht
  | @known s v hkey hvalue =>
    refine ⟨fun ht => ?_, fun ht => ?_⟩
    · obtain rfl := Option.some.inj (hkey.symm.trans ht)
      rw [Setting.get_put_self]
      exact hvalue
    · refine Setting.get_put_of_ne ?_ v o
      rintro rfl
      exact ht hkey

/-! ## In place -/

/-- A change of options in place. What was written before a failure stays written. -/
abbrev Edit (α : Type) := ExceptT ConfigFault (StateM Options) α

namespace Edit

/-- The result of a change, and the options that it leaves. -/
def on {α : Type} (edit : Edit α) (o : Options) : Except ConfigFault α × Options := edit.run.run o

/-- Read a value of a setting; a failure names the key. -/
def read (s : Setting) (key value : String) : Edit s.Value :=
  match s.parse? value with
  | none => throw (.badValue key value)
  | some v => pure v

/-- Write a setting. -/
def write (s : Setting) (v : s.Value) : Edit Unit := modify (s.put v)

/-- Set one option from texts. -/
def set (key value : String) : Edit Unit :=
  match Setting.ofKey? key with
  | none => pure ()
  | some s => do
    let v ← read s key value
    write s v

/-- **An option is set in place as a whole, or not at all.** -/
theorem set_on (o : Options) (key value : String) :
    (set key value).on o =
      match o.set key value with
      | .ok o' => (.ok (), o')
      | .error fault => (.error fault, o) := by
  rw [set, Options.set]
  cases Setting.ofKey? key with
  | none => rfl
  | some s =>
    dsimp only
    rw [read]
    cases s.parse? value with
    | none => rfl
    | some v => rfl

end Edit

/-- What setting one option comes to, as a result and the options that are left. -/
structure Local (o : Options) (key value : String) (result : Except ConfigFault Unit)
    (o' : Options) : Prop where
  succeeds : result = .ok () ↔ Reads (key, value)
  /-- A failure names the key with its value, and leaves all settings as they were. -/
  failed : ∀ fault, result = .error fault → fault = .badValue key value ∧ o' = o
  /-- The setting with the key has the value that was read. -/
  written : ∀ s, Setting.ofKey? key = some s → result = .ok () → s.parse? value = some (s.get o')
  /-- No other setting is written. -/
  others : ∀ s, Setting.ofKey? key ≠ some s → s.get o' = s.get o
  /-- An unknown key writes none at all. -/
  unknown : Setting.ofKey? key = none → o' = o

/-- **An option that is set in place writes its own setting at most, and none if it fails.** -/
theorem local_set (o : Options) (key value : String) :
    Local o key value ((Edit.set key value).on o).1 ((Edit.set key value).on o).2 := by
  have hsets := sets_set o key value
  have hreads := reads_iff_of_sets hsets
  rw [Edit.set_on]
  cases hresult : o.set key value with
  | ok o' =>
    rw [hresult] at hreads
    have hget := get_of_set hresult
    refine ⟨iff_of_true rfl (hreads.1 ⟨o', rfl⟩), ?_, fun s hs _ => (hget s).1 hs,
      fun s hs => (hget s).2 hs, ?_⟩
    · intro fault h
      cases h
    · intro hkey
      refine eq_of_get fun s => (hget s).2 ?_
      rw [hkey]
      exact (Option.some_ne_none s).symm
  | error fault =>
    rw [hresult] at hreads hsets
    cases hsets with
    | unreadable hkey hvalue =>
      refine ⟨iff_of_false ?_ fun h => ?_, ?_, ?_, fun s _ => rfl, fun _ => rfl⟩
      · intro h
        cases h
      · obtain ⟨o', h⟩ := hreads.2 h
        cases h
      · intro fault h
        exact ⟨(Except.error.inj h).symm, rfl⟩
      · intro s _ h
        cases h

/-! ## Many pairs -/

/-- The pairs for a setting, in order. -/
def pairsFor (s : Setting) (pairs : List (String × String)) : List (String × String) :=
  pairs.filter fun pair => Setting.ofKey? pair.1 = some s

/-- The value in the last pair for a setting. -/
def lastFor (s : Setting) (pairs : List (String × String)) : Option s.Value :=
  (pairsFor s pairs).getLast?.bind fun pair => s.parse? pair.2

/-- The options in which each setting has the value in the last pair for it, or its default. -/
def settled (pairs : List (String × String)) : Options :=
  ofSettings fun s => (lastFor s pairs).getD (s.get {})

theorem pairsFor_append (s : Setting) (pairs others : List (String × String)) :
    pairsFor s (pairs ++ others) = pairsFor s pairs ++ pairsFor s others :=
  List.filter_append ..

theorem pairsFor_singleton (s : Setting) (pair : String × String) :
    pairsFor s [pair] = if Setting.ofKey? pair.1 = some s then [pair] else [] := by
  by_cases h : Setting.ofKey? pair.1 = some s <;> simp [pairsFor, h]

/-- The last pair counts, if it is for the setting. -/
theorem lastFor_concat (s : Setting) (pairs : List (String × String)) (pair : String × String) :
    lastFor s (pairs ++ [pair]) =
      if Setting.ofKey? pair.1 = some s then s.parse? pair.2 else lastFor s pairs := by
  rw [lastFor, pairsFor_append, pairsFor_singleton]
  split
  · rw [List.getLast?_concat, Option.bind_some]
  · rw [List.append_nil, ← lastFor]

theorem setAll_concat (o : Options) (pairs : List (String × String)) (key value : String) :
    o.setAll (pairs ++ [(key, value)]) = (o.setAll pairs).bind fun o => o.set key value := by
  induction pairs generalizing o with
  | nil =>
    change ((o.set key value).bind fun o => .ok o) = o.set key value
    cases o.set key value with
    | error fault => rfl
    | ok o => rfl
  | cons pair pairs ih =>
    obtain ⟨k, v⟩ := pair
    rw [List.cons_append, setAll, setAll]
    cases o.set k v with
    | error fault => rfl
    | ok o => exact ih o

/-- **Options are set exactly if all values can be read.** -/
theorem setAll_isOk_iff (o : Options) (pairs : List (String × String)) :
    (∃ o', o.setAll pairs = .ok o') ↔ ∀ pair ∈ pairs, Reads pair := by
  induction pairs generalizing o with
  | nil => exact iff_of_true ⟨o, rfl⟩ (List.forall_mem_nil _)
  | cons pair pairs ih =>
    obtain ⟨k, v⟩ := pair
    have hset := reads_iff_of_sets (sets_set o k v)
    rw [List.forall_mem_cons, ← hset, setAll]
    cases o.set k v with
    | error fault =>
      refine iff_of_false ?_ ?_
      · rintro ⟨o', h⟩
        cases h
      · rintro ⟨⟨o', h⟩, -⟩
        cases h
    | ok o₁ => exact (ih o₁).trans ⟨fun h => ⟨⟨o₁, rfl⟩, h⟩, fun h => h.2⟩

/-- **Each setting has the value in the last pair for it**, or the one that it had. -/
theorem get_of_setAll (h : o.setAll pairs = .ok o') (s : Setting) :
    s.get o' = (lastFor s pairs).getD (s.get o) := by
  -- from the end, where the last pair is
  induction pairs using List.reverseRecOn generalizing o' with
  | nil =>
    obtain rfl := Except.ok.inj h
    rfl
  | append_singleton pairs pair ih =>
    obtain ⟨k, v⟩ := pair
    rw [setAll_concat] at h
    cases hbefore : o.setAll pairs with
    | error fault =>
      rw [hbefore] at h
      cases h
    | ok o₁ =>
      rw [hbefore] at h
      obtain ⟨hvalue, hother⟩ := get_of_set h s
      rw [lastFor_concat]
      split
      · rename_i hkey
        rw [hvalue hkey, Option.getD_some]
      · rename_i hkey
        rw [hother hkey, ih hbefore]

theorem setAll_eq_ok_iff :
    ({} : Options).setAll pairs = .ok o ↔ (∀ pair ∈ pairs, Reads pair) ∧ o = settled pairs := by
  have hsettled : ∀ {o}, ({} : Options).setAll pairs = .ok o → o = settled pairs := fun h =>
    eq_of_get fun s => by rw [get_of_setAll h, settled, get_ofSettings]
  constructor
  · intro h
    exact ⟨(setAll_isOk_iff _ _).1 ⟨o, h⟩, hsettled h⟩
  · rintro ⟨hreads, rfl⟩
    obtain ⟨o, h⟩ := (setAll_isOk_iff {} pairs).2 hreads
    rw [h, hsettled h]

/-- **Pairs make options exactly if all values can be read and what they settle is valid.** -/
theorem ofPairs_eq_ok_iff :
    ofPairs pairs = .ok o ↔ (∀ pair ∈ pairs, Reads pair) ∧
      (settled pairs).fetch.validate = .ok () ∧ o = settled pairs := by
  rw [ofPairs]
  cases hset : ({} : Options).setAll pairs with
  | error fault =>
    refine iff_of_false (fun h => by cases h) ?_
    rintro ⟨hreads, -⟩
    obtain ⟨o', h⟩ := (setAll_isOk_iff {} pairs).2 hreads
    rw [hset] at h
    cases h
  | ok o₁ =>
    obtain ⟨hreads, rfl⟩ := setAll_eq_ok_iff.1 hset
    change ((settled pairs).fetch.validate.bind fun _ => .ok (settled pairs)) = .ok o ↔ _
    cases hvalid : (settled pairs).fetch.validate with
    | error fault => exact iff_of_false (fun h => by cases h) fun h => by cases h.2.1
    | ok checked =>
      exact ⟨fun h => ⟨hreads, rfl, (Except.ok.inj h).symm⟩, fun h => by rw [h.2.2]; rfl⟩

/-! ## Pairs in another order -/

/-- Pairs for different settings change places, and pairs with unknown keys come and go. -/
inductive Rearranged : List (String × String) → List (String × String) → Prop where
  | refl (pairs : List (String × String)) : Rearranged pairs pairs
  | swap (before after : List (String × String)) {a b : String × String}
      (hother : ∀ s, Setting.ofKey? a.1 = some s → Setting.ofKey? b.1 ≠ some s) :
      Rearranged (before ++ a :: b :: after) (before ++ b :: a :: after)
  | insert (before after : List (String × String)) {pair : String × String}
      (hunknown : Setting.ofKey? pair.1 = none) :
      Rearranged (before ++ after) (before ++ pair :: after)
  | symm {pairs others : List (String × String)} :
      Rearranged pairs others → Rearranged others pairs
  | trans {pairs others further : List (String × String)} :
      Rearranged pairs others → Rearranged others further → Rearranged pairs further

/-- Each setting has the same pairs in the same order then. -/
theorem Rearranged.pairsFor_eq (h : Rearranged pairs others) (s : Setting) :
    pairsFor s others = pairsFor s pairs := by
  induction h with
  | refl => rfl
  | @swap before after a b hother =>
    by_cases ha : Setting.ofKey? a.1 = some s
    · have hb := hother s ha
      simp [pairsFor, ha, hb]
    · simp [pairsFor, List.filter_cons, ha]
  | insert before after hunknown => simp [pairsFor, hunknown]
  | symm _ ih => exact ih.symm
  | trans _ _ ih ih' => exact ih'.trans ih

theorem reads_of_pairsFor (h : ∀ s, pairsFor s others = pairsFor s pairs)
    (hreads : ∀ pair ∈ pairs, Reads pair) : ∀ pair ∈ others, Reads pair := by
  intro pair hpair s hs
  have hmem : pair ∈ pairsFor s others := List.mem_filter.2 ⟨hpair, decide_eq_true hs⟩
  rw [h s] at hmem
  exact hreads pair (List.mem_filter.1 hmem).1 s hs

/-- **Only the pairs for each setting and their order matter.** -/
theorem ofPairs_of_pairsFor (h : ∀ s, pairsFor s others = pairsFor s pairs) :
    (ofPairs others).toOption = (ofPairs pairs).toOption := by
  have hsettled : settled others = settled pairs :=
    congrArg ofSettings (funext fun s => by rw [lastFor, lastFor, h s])
  have hsame : ∀ o, ofPairs others = .ok o ↔ ofPairs pairs = .ok o := by
    intro o
    rw [ofPairs_eq_ok_iff, ofPairs_eq_ok_iff, hsettled]
    exact and_congr_left fun _ => ⟨reads_of_pairsFor fun s => (h s).symm, reads_of_pairsFor h⟩
  cases hothers : ofPairs others with
  | ok o => rw [(hsame o).1 hothers]
  | error fault =>
    cases hpairs : ofPairs pairs with
    | ok o =>
      rw [(hsame o).2 hpairs] at hothers
      cases hothers
    | error fault' => rfl

/-- **Options are set one at a time and as a whole, the last pair for a setting counts, and pairs for
different settings do not matter to each other.**

* Setting one option in place writes the setting with its key, or nothing if it fails or does not know
  the key. Every setting has a key, and none has two but the number of chunks.
* Pairs make options exactly if each known key has a value that can be read and what they settle is
  valid. Each setting has the value in the last pair for it then, or its default.
* So it comes to the same if each setting has the same pairs in the same order. That is so if pairs for
  different settings change places and pairs with unknown keys come and go. -/
theorem pairs_settle_options (o : Options) (key value : String) (pairs : List (String × String)) :
    Local o key value ((Edit.set key value).on o).1 ((Edit.set key value).on o).2 ∧
      (∀ s, ∃ key', Setting.ofKey? key' = some s) ∧
      (∀ s key', Setting.ofKey? key = some s → Setting.ofKey? key' = some s →
        key = key' ∨ s = .maxParallel) ∧
      (Setting.ofKey? key = some .maxParallel ↔
        key = "databricks.cloudfetch.max_parallel_downloads" ∨
          key = "databricks.cloudfetch.max_chunks_in_memory") ∧
      (∀ o', ofPairs pairs = .ok o' ↔ (∀ pair ∈ pairs, Reads pair) ∧
        (settled pairs).fetch.validate = .ok () ∧ o' = settled pairs) ∧
      (∀ s, s.get (settled pairs) = (lastFor s pairs).getD (s.get {})) ∧
      (∀ others, (∀ s, pairsFor s others = pairsFor s pairs) →
        (ofPairs others).toOption = (ofPairs pairs).toOption) ∧
      ∀ others, Rearranged pairs others →
        (ofPairs others).toOption = (ofPairs pairs).toOption := by
  refine ⟨local_set o key value, Setting.exists_key, fun s key' h h' => Setting.key_unique h h',
    Setting.ofKey?_eq_maxParallel_iff, fun o' => ofPairs_eq_ok_iff,
    fun s => get_ofSettings _ s, fun others h => ofPairs_of_pairsFor h, ?_⟩
  intro others h
  exact ofPairs_of_pairsFor h.pairsFor_eq

namespace Sample

/-- The base delay is set to more than the longest delay is by default. -/
def longBase : String × String := ("databricks.retry.base_delay_ms", "20000")

/-- The longest delay is set to still more. -/
def longerMax : String × String := ("databricks.retry.max_delay_ms", "30000")

/-- A pair that is meant for others. -/
def foreign : String × String := ("databricks.catalog", "main")

end Sample

/-- Options that would be refused in between are no matter. -/
theorem pairs_settle_options_long_base :
    (ofPairs [Sample.longBase]).toOption = none ∧
      Rearranged [Sample.longBase, Sample.longerMax]
        [Sample.longerMax, Sample.foreign, Sample.longBase] ∧
      (ofPairs [Sample.longerMax, Sample.foreign, Sample.longBase]).toOption =
        (ofPairs [Sample.longBase, Sample.longerMax]).toOption ∧
      ((ofPairs [Sample.longBase, Sample.longerMax]).toOption.map fun o =>
        (o.fetch.retry.baseDelay, o.fetch.retry.maxDelay)) = some (.ofSecs 20, .ofSecs 30) := by
  have hmoved : Rearranged [Sample.longBase, Sample.longerMax]
      [Sample.longerMax, Sample.foreign, Sample.longBase] := by
    have hother : ∀ s, Setting.ofKey? Sample.longBase.1 = some s →
        Setting.ofKey? Sample.longerMax.1 ≠ some s := by
      intro s hs hs'
      have hdiffer : Setting.ofKey? Sample.longBase.1 ≠ Setting.ofKey? Sample.longerMax.1 := by
        decide +kernel
      exact hdiffer (hs.trans hs'.symm)
    exact .trans (.swap [] [] hother)
      (.insert [Sample.longerMax] [Sample.longBase] (by decide +kernel))
  obtain ⟨-, -, -, -, -, -, -, hsame⟩ :=
    pairs_settle_options {} Sample.foreign.1 Sample.foreign.2 [Sample.longBase, Sample.longerMax]
  exact ⟨by decide +kernel, hmoved, hsame _ hmoved, by decide +kernel⟩

end Options

end ResultChunks
