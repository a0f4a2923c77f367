import HackersOs.Core.LTS
import HackersOs.Core.SlotTable
import HackersOs.L3Net.NetInput

/-!
# The ARP cache as a bounded map

`arp_cache_add` overwrites the entry of the address, or fills the first free one,
or replaces entry 0. So the cache is a table without duplicate keys, and a run of
it a run of a partial map with at most 32 addresses (`arpCacheAdd_refines`): an add
sets one address, and drops another only when all entries are taken
(`arp_cache_bounded_map`).
-/
namespace HackersOs.L3.Net
open HackersOs.Core

/-- The cache, with nothing in the entries that are not valid. -/
def arpTable (cache : Fin 32 → ArpEntry) : SlotTable UInt32 MacAddr 32 := fun i =>
  if (cache i).valid then some ((cache i).ip, (cache i).mac) else none

/-- All entries are taken, and none has the address. -/
def Replaces (cache : Fin 32 → ArpEntry) (ip : UInt32) : Prop :=
  (∀ i, (cache i).valid = true) ∧ ∀ i, (cache i).ip ≠ ip

instance (cache : Fin 32 → ArpEntry) (ip : UInt32) : Decidable (Replaces cache ip) :=
  inferInstanceAs (Decidable (_ ∧ _))

/-- The runs of `arp_cache_add` from an empty cache. -/
def arpLTS : LTS (Fin 32 → ArpEntry) (UInt32 × MacAddr) where
  init cache := ∀ i, (cache i).valid = false
  step cache add cache' := cache' = arpCacheAdd cache add.1 add.2

section
variable {cache : Fin 32 → ArpEntry} {ip ip' : UInt32} {mac : MacAddr} {i : Fin 32}

theorem arpTable_eq_some :
    arpTable cache i = some (ip, mac) ↔ (cache i).valid = true ∧ (cache i).ip = ip ∧
      (cache i).mac = mac := by
  rw [arpTable, Option.ite_none_right_eq_some, Option.some.injEq, Prod.mk.injEq]

theorem arpTable_valid (h : (cache i).valid = true) :
    arpTable cache i = some ((cache i).ip, (cache i).mac) :=
  if_pos h

theorem arpTable_free (h : (cache i).valid = false) : arpTable cache i = none :=
  if_neg (ne_true_of_eq_false h)

theorem find_finRange_none {p : Fin 32 → Bool} (h : (List.finRange 32).find? p = none)
    (i : Fin 32) : p i = false :=
  Bool.eq_false_iff.mpr (List.find?_eq_none.mp h i (List.mem_finRange i))

/-- The entry that `arp_cache_add` writes. -/
inductive AddsAt (cache : Fin 32 → ArpEntry) (ip : UInt32) (i : Fin 32) : Prop where
  | existing : (cache i).valid = true → (cache i).ip = ip → AddsAt cache ip i
  | free : (∀ j, (cache j).valid = true → (cache j).ip ≠ ip) → (cache i).valid = false →
      AddsAt cache ip i
  | first : Replaces cache ip → i = 0 → AddsAt cache ip i

theorem arpCacheAdd_table (cache : Fin 32 → ArpEntry) (ip : UInt32) (mac : MacAddr) :
    ∃ i, AddsAt cache ip i ∧
      arpTable (arpCacheAdd cache ip mac) = Function.update (arpTable cache) i (some (ip, mac)) := by
  unfold arpCacheAdd
  cases hold : (List.finRange 32).find? fun i => (cache i).valid && (cache i).ip == ip with
  | some i =>
    have hi := List.find?_some hold
    rw [Bool.and_eq_true, beq_iff_eq] at hi
    refine ⟨i, .existing hi.1 hi.2, funext fun j => ?_⟩
    by_cases hj : j = i
    · subst hj
      simp [arpTable, hi]
    · simp [arpTable, hj]
  | none =>
    have hnot : ∀ j, (cache j).valid = true → (cache j).ip ≠ ip := by
      intro j hv hip
      have := find_finRange_none hold j
      simp [hv, hip] at this
    cases hfree : (List.finRange 32).find? fun i => !(cache i).valid with
    | some i =>
      have hi : (cache i).valid = false := by simpa using List.find?_some hfree
      refine ⟨i, .free hnot hi, funext fun j => ?_⟩
      by_cases hj : j = i
      · subst hj
        simp [arpTable]
      · simp [arpTable, hj]
    | none =>
      have hall : ∀ j, (cache j).valid = true := fun j => by simpa using find_finRange_none hfree j
      refine ⟨0, .first ⟨hall, fun j => hnot j (hall j)⟩ rfl, funext fun j => ?_⟩
      by_cases hj : j = 0
      · subst hj
        simp [arpTable, hall]
      · simp [arpTable, hj]

/-- No other entry has the address. -/
theorem AddsAt.alone (hu : (arpTable cache).Unique) (h : AddsAt cache ip i) :
    ∀ j, j ≠ i → ∀ w, arpTable cache j ≠ some (ip, w) := by
  intro j hj w hjw
  obtain ⟨hv, hip, -⟩ := arpTable_eq_some.mp hjw
  cases h with
  | existing hi hip' =>
    have hiw := arpTable_valid hi
    rw [hip'] at hiw
    exact hj (hu j i ip _ _ hjw hiw)
  | free hnot _ => exact hnot j hv hip
  | first hrep _ => exact hrep.2 j hip

theorem arpCacheAdd_unique (hu : (arpTable cache).Unique) (ip : UInt32) (mac : MacAddr) :
    (arpTable (arpCacheAdd cache ip mac)).Unique := by
  obtain ⟨i, hi, htable⟩ := arpCacheAdd_table cache ip mac
  rw [htable]
  exact hu.update (hi.alone hu)

/-- The map: the new address is set, and one is dropped if there was no room. -/
theorem arpCacheAdd_refines (hu : (arpTable cache).Unique) (ip ip' : UInt32) (mac : MacAddr) :
    (arpTable (arpCacheAdd cache ip mac)).get ip' = if ip' = ip then some mac
      else if Replaces cache ip ∧ ip' = (cache 0).ip then none else (arpTable cache).get ip' := by
  obtain ⟨i, hi, htable⟩ := arpCacheAdd_table cache ip mac
  rw [htable, SlotTable.get_update hu (hi.alone hu)]
  by_cases hip : ip' = ip
  · rw [if_pos hip, if_pos hip]
  rw [if_neg hip, if_neg hip]
  -- the address that the written entry had
  refine if_congr ?_ rfl rfl
  cases hi with
  | existing hv hold =>
    rw [arpTable_valid hv]
    constructor
    · intro h
      exact absurd ((Option.some.inj h).symm.trans hold) hip
    · intro h
      exact absurd hold (h.1.2 i)
  | free _ hv =>
    rw [arpTable_free hv]
    constructor
    · intro h
      cases h
    · intro h
      exact absurd (h.1.1 i) (ne_true_of_eq_false hv)
  | first hrep h0 =>
    subst h0
    rw [arpTable_valid (hrep.1 0)]
    constructor
    · intro h
      exact ⟨hrep, (Option.some.inj h).symm⟩
    · intro h
      exact congrArg some h.2.symm

theorem arpLookup_eq_get (hu : (arpTable cache).Unique) (ip : UInt32) :
    arpLookup cache ip = ((arpTable cache).get ip).getD macZero := by
  unfold arpLookup
  cases hfind : (List.finRange 32).find? fun i => (cache i).valid && (cache i).ip == ip with
  | some i =>
    have hi := List.find?_some hfind
    rw [Bool.and_eq_true, beq_iff_eq] at hi
    rw [(SlotTable.get_eq_some hu).mpr ⟨i, arpTable_eq_some.mpr ⟨hi.1, hi.2, rfl⟩⟩]
    rfl
  | none =>
    have hnone : (arpTable cache).get ip = none := by
      rw [SlotTable.get_eq_none hu]
      intro i mac hi
      obtain ⟨hv, hip, -⟩ := arpTable_eq_some.mp hi
      have := find_finRange_none hfind i
      simp [hv, hip] at this
    rw [hnone]
    rfl

theorem arp_unique_inductive : arpLTS.Inductive fun cache => (arpTable cache).Unique where
  init cache h := by
    intro i j k v w hi
    rw [arpTable_free (h i)] at hi
    cases hi
  step cache add cache' hu hstep := by
    rw [hstep]
    exact arpCacheAdd_unique hu add.1 add.2

end

/-- After every sequence of adds to an empty cache: no address has two entries, an address just
added is looked up as it was added, and the lookup of another address changes only if it is that
of entry 0, all entries are valid and the added address had none. -/
theorem arp_cache_bounded_map (cache : Fin 32 → ArpEntry) (hr : arpLTS.Reachable cache) :
    (∀ i j, (cache i).valid = true → (cache j).valid = true → (cache i).ip = (cache j).ip → i = j) ∧
    ∀ (ip : UInt32) (mac : MacAddr), arpLookup (arpCacheAdd cache ip mac) ip = mac ∧
      ∀ ip', ip' ≠ ip → arpLookup (arpCacheAdd cache ip mac) ip' ≠ arpLookup cache ip' →
        ip' = (cache 0).ip ∧ (∀ i, (cache i).valid = true) ∧ ∀ i, (cache i).ip ≠ ip := by
  have hu := arp_unique_inductive.reachable cache hr
  refine ⟨fun i j hi hj hij => ?_, fun ip mac => ⟨?_, fun ip' hne hchange => ?_⟩⟩
  · have hti := arpTable_valid hi
    rw [hij] at hti
    exact hu i j _ _ _ hti (arpTable_valid hj)
  · rw [arpLookup_eq_get (arpCacheAdd_unique hu ip mac), arpCacheAdd_refines hu, if_pos rfl]
    rfl
  · rw [arpLookup_eq_get (arpCacheAdd_unique hu ip mac), arpCacheAdd_refines hu, if_neg hne,
      arpLookup_eq_get hu] at hchange
    by_cases hrep : Replaces cache ip ∧ ip' = (cache 0).ip
    · exact ⟨hrep.2, hrep.1⟩
    · rw [if_neg hrep] at hchange
      exact absurd rfl hchange

def emptyCache : Fin 32 → ArpEntry := fun _ => ⟨0, macZero, false⟩

/-- Addresses 1 to 32 in turn, and the fifth once more. -/
def fullCache : Fin 32 → ArpEntry :=
  ((List.range 32).map (fun k => (UInt32.ofNat (k + 1), Vector.replicate 6 (UInt8.ofNat (k + 1)))) ++
    [(5, Vector.replicate 6 50)]).foldl (fun cache ((ip, mac) : UInt32 × MacAddr) =>
      arpCacheAdd cache ip mac) emptyCache

/-- A full cache takes a new address in place of the first one. -/
theorem arp_cache_bounded_map_full :
    arpLookup fullCache 5 = Vector.replicate 6 50 ∧ arpLookup fullCache 1 = Vector.replicate 6 1 ∧
    arpLookup (arpCacheAdd fullCache 33 (Vector.replicate 6 33)) 33 = Vector.replicate 6 33 ∧
    arpLookup (arpCacheAdd fullCache 33 (Vector.replicate 6 33)) 1 = macZero ∧
    ∀ ip, ip ≠ 33 → ip ≠ 1 →
      arpLookup (arpCacheAdd fullCache 33 (Vector.replicate 6 33)) ip = arpLookup fullCache ip := by
  have hr : arpLTS.Reachable emptyCache := ⟨emptyCache, [], fun _ => rfl, .nil _⟩
  obtain ⟨hnew, hother⟩ := (arp_cache_bounded_map fullCache (hr.foldl (fun _ _ => rfl) _)).2 33
    (Vector.replicate 6 33)
  have hruns : arpLookup fullCache 5 = Vector.replicate 6 50 ∧
      arpLookup fullCache 1 = Vector.replicate 6 1 ∧ (fullCache 0).ip = 1 ∧
      arpLookup (arpCacheAdd fullCache 33 (Vector.replicate 6 33)) 1 = macZero := by decide +kernel
  obtain ⟨h5, h1, hfirst, hgone⟩ := hruns
  refine ⟨h5, h1, hnew, hgone, fun ip hne h => ?_⟩
  by_contra hchange
  exact h ((hother ip hne hchange).1.trans hfirst)

/-- At most 32 addresses are known. -/
theorem arp_cache_length_le (cache : Fin 32 → ArpEntry) (hr : arpLTS.Reachable cache)
    {ips : List UInt32}
    (hips : ips.Nodup) (h : ∀ ip ∈ ips, ((arpTable cache).get ip).isSome) : ips.length ≤ 32 :=
  SlotTable.length_keys_le (arp_unique_inductive.reachable cache hr) hips h

end HackersOs.L3.Net
