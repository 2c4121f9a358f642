import Batter.Library.KeyedTable
import Batter.Runlimit.Core.Check
import Batter.Runlimit.Memory.Config

/-!
# Runlimit memory store: one shard

A shard holds the stored counters of its keys together with an index of their
expiry times, ordered by time and then by key.  The index is a redundant copy
of what the entries say; `Shard.Consistent` states that the two agree, and
every operation below is shown to keep it.

What a limiter reads from a shard is `activeEntry`: the entry of a key that
has not expired.  Pruning is invisible to it (`activeEntry_pruneExpired`).
`mustRefuse_iff` says when a shard has no room for a key in terms of the
active entries only, so bounded pruning does not influence that decision
either.
-/

namespace Batter.Runlimit

open RustStd Finset

/-- One element of the expiry index. -/
structure Expiration where
  expiresAtMillis : Nat
  key : CounterKey
deriving DecidableEq

/-- The pair of components, in the order of the derived comparison. -/
def Expiration.toLexPair (expiration : Expiration) : Nat ×ₗ CounterKey :=
  toLex (expiration.expiresAtMillis, expiration.key)

theorem Expiration.toLexPair_injective : Function.Injective Expiration.toLexPair := by
  rintro ⟨a, k⟩ ⟨b, l⟩ h
  simpa [Expiration.toLexPair] using h

instance : LinearOrder Expiration :=
  LinearOrder.lift' Expiration.toLexPair Expiration.toLexPair_injective

theorem Expiration.expiresAtMillis_le {a b : Expiration} (h : a ≤ b) :
    a.expiresAtMillis ≤ b.expiresAtMillis := by
  have hlex : a.toLexPair ≤ b.toLexPair := h
  rcases Prod.Lex.le_iff.mp hlex with hlt | heq
  · exact le_of_lt hlt
  · exact le_of_eq heq.1

/-- A stored value with its expiry. -/
structure StoredEntry (E : Type) where
  value : E
  expiresAtMillis : Nat
deriving DecidableEq

/-- One independently locked part of a store. -/
structure Shard (E : Type) where
  capacity : Nat
  latestObservedMillis : Nat
  entries : Finmap (fun _ : CounterKey => StoredEntry E)
  expirations : Finset Expiration

namespace Shard

variable {E : Type}

def new (capacity : Nat) : Shard E :=
  ⟨capacity, 0, ∅, ∅⟩

section

variable (shard : Shard E)

def clear : Shard E :=
  { shard with entries := ∅, expirations := ∅ }

/-- The number of stored entries. -/
def used : Nat :=
  shard.entries.keys.card

def recordObservedMillis (nowMillis : Nat) : Shard E :=
  { shard with latestObservedMillis := nowMillis }

variable (key : CounterKey)

def containsKey : Bool :=
  decide (key ∈ shard.entries)

/-- `active_entry`: the value and expiry of an entry that has not expired. -/
def activeEntry (nowMillis : Nat) : Option (E × Nat) :=
  match shard.entries.lookup key with
  | none => none
  | some entry =>
    if entry.expiresAtMillis > nowMillis then some (entry.value, entry.expiresAtMillis)
    else none

/-- `update_value` with an update that returns nothing. -/
def updateValue (update : E → E) : Option (Shard E) :=
  match shard.entries.lookup key with
  | none => none
  | some entry =>
    some { shard with
      entries := shard.entries.insert key ⟨update entry.value, entry.expiresAtMillis⟩ }

/-- `replace`: the new shard and the value that was stored before. -/
def replace (value : E) (expiresAtMillis : Nat) : Shard E × Option E :=
  let previous := shard.entries.lookup key
  let expirations :=
    match previous with
    | some entry => shard.expirations.erase ⟨entry.expiresAtMillis, key⟩
    | none => shard.expirations
  ({ shard with
      entries := shard.entries.insert key ⟨value, expiresAtMillis⟩
      expirations := insert ⟨expiresAtMillis, key⟩ expirations },
    previous.map StoredEntry.value)

/-- The smallest element of the expiry index. -/
def firstExpiration : Option Expiration :=
  if h : shard.expirations.Nonempty then some (shard.expirations.min' h) else none

/-- Takes one element out of the expiry index and out of the entries. -/
def popExpiration (expiration : Expiration) : Shard E :=
  { shard with
    entries := shard.entries.erase expiration.key
    expirations := shard.expirations.erase expiration }

end

/-- `prune_expired`: removes at most `maximum` expired entries, earliest expiry
first, and counts them. -/
def pruneExpired (nowMillis : Nat) : Nat → Shard E → Shard E × Nat
  | 0, shard => (shard, 0)
  | maximum + 1, shard =>
    match shard.firstExpiration with
    | none => (shard, 0)
    | some expiration =>
      if expiration.expiresAtMillis > nowMillis then (shard, 0)
      else
        let rest := pruneExpired nowMillis maximum (shard.popExpiration expiration)
        (rest.1, rest.2 + if shard.containsKey expiration.key then 1 else 0)

def capacityRetryAfterMillis (shard : Shard E) (nowMillis : Nat) : Option Nat :=
  shard.firstExpiration.map fun expiration => max (expiration.expiresAtMillis - nowMillis) 1

/-- `Duration::from_millis(u64::try_from(millis).expect(message))`. -/
def durationFromMillis (message : String) (millis : Nat) : Except Panic Duration :=
  if h : millis ≤ u64Max then .ok (.fromMillis millis h) else .error ⟨message⟩

def storageCapacityDenial (shard : Shard E) (nowMillis : Nat) : Except Panic Denial :=
  match shard.capacityRetryAfterMillis nowMillis with
  | none => .ok (.storageCapacity none)
  | some millis => do
    let duration ← durationFromMillis
      "a stored entry's remaining duration cannot exceed its portable policy window" millis
    pure (.storageCapacity (some ⟨duration⟩))

/-! ### The representation invariant of a shard -/

/-- The expiry index has one element for each stored entry and no other, and
the shard is within its capacity. -/
structure Consistent (shard : Shard E) : Prop where
  mem_expirations : ∀ expiration,
    expiration ∈ shard.expirations ↔
      ∃ entry, shard.entries.lookup expiration.key = some entry ∧
        entry.expiresAtMillis = expiration.expiresAtMillis
  used_le : shard.used ≤ shard.capacity

/-- The keys of the entries that have not expired. -/
def activeKeys (shard : Shard E) (nowMillis : Nat) : Finset CounterKey :=
  shard.entries.keys.filter fun key => (shard.activeEntry key nowMillis).isSome

variable {shard : Shard E} {key : CounterKey} {now : Nat} {entry : StoredEntry E}

theorem Consistent.recordObservedMillis (h : shard.Consistent) (now : Nat) :
    (shard.recordObservedMillis now).Consistent :=
  ⟨h.mem_expirations, h.used_le⟩

theorem activeEntry_eq_some {active : E × Nat} : shard.activeEntry key now = some active ↔
      shard.entries.lookup key = some ⟨active.1, active.2⟩ ∧ now < active.2 := by
  unfold activeEntry
  cases hlook : shard.entries.lookup key with
  | none => simp
  | some entry =>
    obtain ⟨value, expiresAt⟩ := entry
    obtain ⟨v, x⟩ := active
    by_cases hx : expiresAt > now
    · simp only [hx, if_true, Option.some.injEq, Prod.mk.injEq, StoredEntry.mk.injEq]
      constructor
      · rintro ⟨rfl, rfl⟩
        exact ⟨⟨rfl, rfl⟩, hx⟩
      · exact And.left
    · simp only [hx, if_false, Option.some.injEq, StoredEntry.mk.injEq, reduceCtorEq,
        false_iff, not_and]
      rintro ⟨-, rfl⟩
      exact hx

theorem mem_activeKeys : key ∈ shard.activeKeys now ↔ (shard.activeEntry key now).isSome := by
  unfold activeKeys
  rw [mem_filter, and_iff_right_iff_imp]
  intro hsome
  obtain ⟨active, hact⟩ := Option.isSome_iff_exists.mp hsome
  rw [Finmap.mem_keys]
  exact Finmap.mem_of_lookup_eq_some (activeEntry_eq_some.mp hact).1

theorem card_activeKeys_le_used (shard : Shard E) (now : Nat) :
    (shard.activeKeys now).card ≤ shard.used :=
  card_filter_le _ _

/-! ### Replacing an entry -/

theorem lookup_replace (shard : Shard E) (key key' : CounterKey) (value : E) (expiresAt : Nat) :
    (shard.replace key value expiresAt).1.entries.lookup key' =
      if key' = key then some ⟨value, expiresAt⟩ else shard.entries.lookup key' := by
  simp only [replace]
  split_ifs with h
  · rw [h, Finmap.lookup_insert]
  · rw [Finmap.lookup_insert_of_ne _ h]

theorem used_replace (shard : Shard E) (key : CounterKey) (value : E) (expiresAt : Nat) :
    (shard.replace key value expiresAt).1.used =
      shard.used + if shard.containsKey key = false then 1 else 0 := by
  simp only [used, replace, KeyedTable.keys_insert, containsKey, decide_eq_false_iff_not]
  by_cases h : key ∈ shard.entries
  · rw [insert_eq_of_mem (Finmap.mem_keys.mpr h), if_neg (not_not.mpr h), Nat.add_zero]
  · rw [card_insert_of_notMem (fun hmem => h (Finmap.mem_keys.mp hmem)), if_pos h]

/-- Replacing keeps the invariant when the key is stored or there is room. -/
theorem Consistent.replace (h : shard.Consistent)
    (hroom : key ∈ shard.entries ∨ shard.used < shard.capacity) (value : E) (expiresAt : Nat) :
    (shard.replace key value expiresAt).1.Consistent := by
  constructor
  · rintro ⟨x, key'⟩
    rw [lookup_replace]
    simp only [Shard.replace, mem_insert, Expiration.mk.injEq]
    by_cases hkey : key' = key
    · subst hkey
      simp only [and_true, if_true, Option.some.injEq, exists_eq_left']
      constructor
      · rintro (rfl | hmem)
        · rfl
        · cases hlook : shard.entries.lookup key' with
          | none =>
            rw [hlook] at hmem
            obtain ⟨entry, hentry, -⟩ := (h.mem_expirations _).mp hmem
            rw [hlook] at hentry
            cases hentry
          | some entry =>
            rw [hlook] at hmem
            obtain ⟨hne, hmem⟩ := mem_erase.mp hmem
            obtain ⟨entry', hentry, hx⟩ := (h.mem_expirations _).mp hmem
            rw [hlook] at hentry
            cases hentry
            exact absurd (by rw [hx]) hne
      · rintro rfl
        exact .inl rfl
    · simp only [hkey, and_false, false_or, if_false]
      rw [← h.mem_expirations ⟨x, key'⟩]
      cases shard.entries.lookup key with
      | none => rfl
      | some entry =>
        simp only [mem_erase, ne_eq, Expiration.mk.injEq, hkey, and_false,
          not_false_eq_true, true_and]
  · have hcard : (insert key shard.entries.keys).card ≤ shard.capacity := by
      rcases hroom with hmem | hlt
      · rw [insert_eq_of_mem (Finmap.mem_keys.mpr hmem)]
        exact h.used_le
      · exact (card_insert_le _ _).trans hlt
    simpa only [used, Shard.replace, KeyedTable.keys_insert] using hcard

/-- Updating a value in place is replacing it under the same expiry. -/
theorem Consistent.updateValue_eq (h : shard.Consistent)
    (hlook : shard.entries.lookup key = some entry) (update : E → E) :
    shard.updateValue key update =
      some (shard.replace key (update entry.value) entry.expiresAtMillis).1 := by
  have hmem : (⟨entry.expiresAtMillis, key⟩ : Expiration) ∈ shard.expirations :=
    (h.mem_expirations _).mpr ⟨entry, hlook, rfl⟩
  simp only [updateValue, Shard.replace, hlook, insert_erase hmem]

/-! ### Pruning -/

/-- The second shard is the first one without some entries that have expired. -/
structure Pruned (nowMillis : Nat) (shard pruned : Shard E) : Prop where
  capacity_eq : pruned.capacity = shard.capacity
  latest_eq : pruned.latestObservedMillis = shard.latestObservedMillis
  lookup_eq : ∀ key,
    pruned.entries.lookup key = shard.entries.lookup key ∨
      pruned.entries.lookup key = none ∧
        ∃ entry, shard.entries.lookup key = some entry ∧ entry.expiresAtMillis ≤ nowMillis

theorem Pruned.refl (now : Nat) (shard : Shard E) : Pruned now shard shard :=
  ⟨rfl, rfl, fun _ => .inl rfl⟩

theorem Pruned.trans {a b c : Shard E} (hab : Pruned now a b) (hbc : Pruned now b c) :
    Pruned now a c := by
  refine ⟨hbc.capacity_eq.trans hab.capacity_eq, hbc.latest_eq.trans hab.latest_eq, ?_⟩
  intro key
  rcases hbc.lookup_eq key with hc | ⟨hc, hexp⟩
  · rw [hc]
    exact hab.lookup_eq key
  · refine .inr ⟨hc, ?_⟩
    rcases hab.lookup_eq key with hb | ⟨-, hexp'⟩
    · rwa [hb] at hexp
    · exact hexp'

/-- Pruning is invisible at the time it was made for and later. -/
theorem Pruned.activeEntry_eq {now later : Nat} {shard pruned : Shard E}
    (h : Pruned now shard pruned) (hle : now ≤ later) (key : CounterKey) :
    pruned.activeEntry key later = shard.activeEntry key later := by
  unfold activeEntry
  rcases h.lookup_eq key with heq | ⟨hnone, entry, hentry, hexp⟩
  · rw [heq]
  · simp [hnone, hentry, hexp.trans hle]

theorem Pruned.activeKeys_eq {shard pruned : Shard E} (h : Pruned now shard pruned) :
    pruned.activeKeys now = shard.activeKeys now := by
  ext key
  rw [mem_activeKeys, mem_activeKeys, h.activeEntry_eq le_rfl]

theorem firstExpiration_eq_some {expiration : Expiration}
    (h : shard.firstExpiration = some expiration) :
    expiration ∈ shard.expirations ∧ ∀ other ∈ shard.expirations, expiration ≤ other := by
  unfold firstExpiration at h
  split_ifs at h with hne
  obtain rfl := Option.some.inj h
  exact ⟨min'_mem _ hne, fun other hother => min'_le _ other hother⟩

theorem firstExpiration_eq_none (h : shard.firstExpiration = none) : shard.expirations = ∅ := by
  unfold firstExpiration at h
  split_ifs at h with hne
  exact not_nonempty_iff_eq_empty.mp hne

/-- No entry has expired once the first element of the index has not. -/
theorem Consistent.none_expired (h : shard.Consistent)
    (hfirst : ∀ expiration, shard.firstExpiration = some expiration →
      now < expiration.expiresAtMillis)
    (hentry : shard.entries.lookup key = some entry) :
    now < entry.expiresAtMillis := by
  have hmem := (h.mem_expirations ⟨entry.expiresAtMillis, key⟩).mpr ⟨entry, hentry, rfl⟩
  cases hf : shard.firstExpiration with
  | none =>
    rw [firstExpiration_eq_none hf] at hmem
    simp at hmem
  | some expiration =>
    have hle := (firstExpiration_eq_some hf).2 _ hmem
    exact (hfirst _ hf).trans_le (Expiration.expiresAtMillis_le hle)

section Pop

variable {shard : Shard E} {expiration : Expiration}

variable (h : shard.Consistent) (hmem : expiration ∈ shard.expirations)
include h hmem

theorem Consistent.popExpiration : (shard.popExpiration expiration).Consistent := by
  obtain ⟨entry, hentry, hx⟩ := (h.mem_expirations _).mp hmem
  constructor
  · rintro ⟨x, key⟩
    simp only [Shard.popExpiration, mem_erase, h.mem_expirations]
    by_cases hkey : key = expiration.key
    · subst hkey
      simp only [Finmap.lookup_erase, reduceCtorEq, false_and, exists_false, iff_false, not_and]
      rintro hne ⟨entry', hentry', hx'⟩
      rw [hentry] at hentry'
      cases hentry'
      exact hne (by rw [← hx', hx])
    · rw [Finmap.lookup_erase_ne hkey]
      refine and_iff_right ?_
      rintro rfl
      exact hkey rfl
  · have hle := card_erase_le (s := shard.entries.keys) (a := expiration.key)
    simpa only [used, Shard.popExpiration, Finmap.keys_erase] using hle.trans h.used_le

theorem Consistent.used_popExpiration : (shard.popExpiration expiration).used + 1 = shard.used := by
  obtain ⟨entry, hentry, -⟩ := (h.mem_expirations _).mp hmem
  have hkey : expiration.key ∈ shard.entries.keys :=
    Finmap.mem_keys.mpr (Finmap.mem_of_lookup_eq_some hentry)
  simpa only [used, Shard.popExpiration, Finmap.keys_erase] using
    card_erase_add_one hkey

theorem Consistent.pruned_popExpiration {now : Nat} (hexp : expiration.expiresAtMillis ≤ now) :
    Pruned now shard (shard.popExpiration expiration) := by
  refine ⟨rfl, rfl, ?_⟩
  intro key
  by_cases hkey : key = expiration.key
  · subst hkey
    obtain ⟨entry, hentry, hx⟩ := (h.mem_expirations _).mp hmem
    exact .inr ⟨Finmap.lookup_erase _ _, entry, hentry, hx ▸ hexp⟩
  · exact .inl (Finmap.lookup_erase_ne hkey)

theorem Consistent.containsKey_of_mem : shard.containsKey expiration.key = true := by
  obtain ⟨entry, hentry, -⟩ := (h.mem_expirations _).mp hmem
  exact decide_eq_true (Finmap.mem_of_lookup_eq_some hentry)

end Pop

/-- What one call of `prune_expired` does. -/
structure PruneSpec (nowMillis maximum : Nat) (shard : Shard E) (result : Shard E × Nat) :
    Prop where
  consistent : result.1.Consistent
  pruned : Pruned nowMillis shard result.1
  used_add : result.1.used + result.2 = shard.used
  complete : result.2 = maximum ∨
    ∀ key entry, result.1.entries.lookup key = some entry → nowMillis < entry.expiresAtMillis

theorem Consistent.pruneExpired_spec (h : shard.Consistent) (now maximum : Nat) :
    PruneSpec now maximum shard (shard.pruneExpired now maximum) := by
  induction maximum generalizing shard with
  | zero =>
    exact ⟨h, .refl _ _, rfl, .inl rfl⟩
  | succ maximum ih =>
    simp only [Shard.pruneExpired]
    cases hfirst : shard.firstExpiration with
    | none =>
      refine ⟨h, .refl _ _, rfl, .inr ?_⟩
      intro key entry
      exact h.none_expired (by simp [hfirst])
    | some expiration =>
      have hmem := (firstExpiration_eq_some hfirst).1
      by_cases hx : expiration.expiresAtMillis > now
      · simp only [hx, if_true]
        refine ⟨h, .refl _ _, rfl, .inr ?_⟩
        intro key entry
        exact h.none_expired (by simpa [hfirst] using hx)
      · simp only [hx, if_false, h.containsKey_of_mem hmem, if_true]
        have hrest := ih (h.popExpiration hmem)
        refine ⟨hrest.consistent,
          (h.pruned_popExpiration hmem (not_lt.mp hx)).trans hrest.pruned, ?_, ?_⟩
        · have hused := h.used_popExpiration hmem
          have hadd := hrest.used_add
          dsimp only
          omega
        · exact hrest.complete.imp (by simp) id

/-- Whether a pruned shard has no room for a key, in terms of what was active
before pruning.  `earlier` are keys that wait for room in the same shard; there
are fewer of them than entries that pruning may remove. -/
theorem Consistent.noRoom_pruneExpired_iff (h : shard.Consistent)
    {maximum : Nat} {earlier : List CounterKey} (hearlier : earlier.length < maximum)
    (now : Nat) (key : CounterKey) :
    let pruned := (shard.pruneExpired now maximum).1
    (pruned.containsKey key = false ∧
        shard.capacity ≤ pruned.used + earlier.countP (fun k => !pruned.containsKey k)) ↔
      shard.activeEntry key now = none ∧
        shard.capacity ≤ (shard.activeKeys now).card +
          earlier.countP (fun k => (shard.activeEntry k now).isNone) := by
  intro pruned
  have hspec := h.pruneExpired_spec now maximum
  have hact := hspec.pruned.activeEntry_eq (le_refl now)
  have hkeys := hspec.pruned.activeKeys_eq
  rcases hspec.complete with hall | hnone
  · have hused := hspec.used_add
    have hcap := h.used_le
    have hcard := card_activeKeys_le_used pruned now
    have hwait : earlier.countP (fun k => !pruned.containsKey k) ≤ earlier.length :=
      List.countP_le_length
    have hwait' : earlier.countP (fun k => (shard.activeEntry k now).isNone) ≤
        earlier.length := List.countP_le_length
    rw [hkeys] at hcard
    change pruned.used + _ = _ at hused
    constructor
    · rintro ⟨-, hle⟩
      omega
    · rintro ⟨-, hle⟩
      omega
  · have hstored : ∀ k, pruned.containsKey k = (shard.activeEntry k now).isSome := by
      intro k
      rw [← hact k, Bool.eq_iff_iff, ← mem_activeKeys]
      simp only [containsKey, decide_eq_true_eq, activeKeys, mem_filter, Finmap.mem_keys]
      refine ⟨fun hmem => ⟨hmem, ?_⟩, And.left⟩
      obtain ⟨entry, hentry⟩ := Finmap.mem_iff.mp hmem
      have hsome : pruned.activeEntry k now = some (entry.value, entry.expiresAtMillis) :=
        activeEntry_eq_some.mpr ⟨hentry, hnone k entry hentry⟩
      rw [hsome]
      rfl
    have hused : pruned.used = (shard.activeKeys now).card := by
      rw [← hkeys]
      unfold used activeKeys
      rw [filter_true_of_mem]
      intro k hk
      rw [hact k, ← hstored k]
      exact decide_eq_true (Finmap.mem_keys.mp hk)
    simp only [hstored, hused, Option.isSome_eq_false_iff, Option.isNone_iff_eq_none,
      Option.not_isSome]

end Shard

end Batter.Runlimit
