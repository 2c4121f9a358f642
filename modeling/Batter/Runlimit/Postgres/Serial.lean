import Batter.Runlimit.Postgres.LockDiscipline

/-!
# Runlimit Postgres: the fixed-window limiter is serial

The ideal store keeps one anchored window for each key and serves one request at a
time.  A batch is refused by its first member, in caller order, that does not fit
into the window of its key or, having no row, finds its shard full; otherwise every
member is charged.  A cleanup drops expired rows.

`postgres_limiter_is_serial` says that every interleaving of transactions acts as
this store on those of them that ended, in the order in which they ended, with the
samples that they took.  The ledger counts the rows of every shard and stays within
the limit, and transactions never wait for each other in a circle.
-/

namespace Batter.Runlimit.Postgres

open RustStd Runs SortedList AnchoredWindow Locking List

variable {offset index : Nat} {now response : Timestamp}

/-- The number of stored rows of a shard. -/
def shardSize (rows : Rows) (shard : CapacityShard) : Nat :=
  KeyedTable.classSize capacityShard rows shard

/-- What a window has left when the response was produced, in microseconds. -/
def remainingMicros (row : Row) (now response : Timestamp) : Nat :=
  (row.expiresAt - max now.micros response.micros).toNat

/-- The quota denial of a batch under its quota mode. -/
def Admission.quotaDenied (mode : QuotaMode) (index : Nat) (denial : QuotaDenial) : Admission :=
  if mode = .shadow then .shadowDenied index denial else .denied index (.quotaExceeded denial)

/-- The ledger counts the rows and stays within the limit. -/
structure Accounted (maximumRows : Nat) (tables : Tables) : Prop where
  counts : ∀ shard, tables.ledger shard = shardSize tables.rows shard
  le : ∀ shard, tables.ledger shard ≤ maximumRows

theorem Accounted.initial (maximumRows : Nat) : Accounted maximumRows Tables.initial :=
  ⟨fun _ => rfl, fun _ => Nat.zero_le _⟩

section Ideal

variable [Sha256]

/-- The rows that a batch would insert into a shard. -/
def newRows (rows : Rows) (checks : List (Check FixedWindowPolicy)) (shard : CapacityShard) : Nat :=
  (checks.map Check.counterKey).countP fun key => key ∉ rows ∧ capacityShard key = shard

variable (maximumRows : Nat) (rows : Rows) (checks : List (Check FixedWindowPolicy))

/-- The member of a batch at a position cannot be admitted: the window of its key
is full, or it has no row and its shard has no room after the earlier members. -/
inductive Refused (now : Int) (index : Nat) : Check FixedWindowPolicy → Option Row → Prop
  | quota {check : Check FixedWindowPolicy} {row : Row} (hcheck : checks[index]? = some check)
      (hrow : rows.lookup check.counterKey = some row)
      (hfull : ¬ Fits now check.cost check.policy.limit.get (some row)) :
      Refused now index check (some row)
  | capacity {check : Check FixedWindowPolicy} (hcheck : checks[index]? = some check)
      (hrow : rows.lookup check.counterKey = none)
      (hfull : maximumRows ≤ shardSize rows (capacityShard check.counterKey) +
        newRows rows (checks.take index) (capacityShard check.counterKey)) :
      Refused now index check none

/-- The window of a check after its charge. -/
def idealRow (now : Int) (check : Check FixedWindowPolicy) : Row :=
  charge now (windowMicros check) check.cost (rows.lookup check.counterKey)

/-- The allowance of an admitted check. -/
structure IdealAllowance (now response : Timestamp) (check : Check FixedWindowPolicy)
    (allowance : Allowance) : Prop where
  capacity : allowance.capacity = check.policy.limit
  available : allowance.available = check.policy.limit.get - (idealRow rows now.micros check).used
  replenishesAfter : allowance.replenishesAfter.IsMicros
    (remainingMicros (idealRow rows now.micros check) now response)

/-- What the ideal store does with a batch. -/
inductive IdealAdmission (now response : Timestamp) : Admission → Rows → Prop
  | allowed {allowances : List Allowance}
      (hfits : ∀ index check row, ¬ Refused maximumRows rows checks now.micros index check row)
      (hallows : List.Forall₂ (IdealAllowance rows now response) checks allowances) :
      IdealAdmission now response (.allowed allowances)
        (KeyedTable.write rows
          (checks.map fun check => (check.counterKey, idealRow rows now.micros check)))
  | quota {index : Nat} {check : Check FixedWindowPolicy} {row : Row} {denial : QuotaDenial}
      (hrefused : Refused maximumRows rows checks now.micros index check (some row))
      (hfirst : ∀ earlier < index, ∀ check row,
        ¬ Refused maximumRows rows checks now.micros earlier check row)
      (hcap : denial.capacity = check.policy.limit)
      (hretry : denial.retryAfter.IsMicros (remainingMicros row now response)) :
      IdealAdmission now response (.quotaDenied check.quotaMode index denial) rows
  | capacity {index : Nat} {check : Check FixedWindowPolicy}
      (hrefused : Refused maximumRows rows checks now.micros index check none)
      (hfirst : ∀ earlier < index, ∀ check row,
        ¬ Refused maximumRows rows checks now.micros earlier check row) :
      IdealAdmission now response (.denied index (.storageCapacity none)) rows

end Ideal

section

variable [Sha256]

/-- One request of the ideal store. -/
inductive IdealStep (maximumRows : Nat) : Rows → Event → Rows → Prop
  | decided {rows rows' : Rows} {request : Request} {now response : Timestamp}
      {admission : Admission} {reply : Reply}
      (hadmission : IdealAdmission maximumRows rows request.checks now response admission rows')
      (hreply : request.build admission = .ok reply) :
      IdealStep maximumRows rows (.decided request now response reply) rows'
  | cleaned {rows : Rows} {maximum : Nat} {sample : Timestamp} {victims : List CounterKey}
      (hnodup : victims.Nodup) (hlen : victims.length ≤ maximum)
      (hexpired : ∀ key ∈ victims, ∃ row, rows.lookup key = some row ∧
        row.expiresAt ≤ sample.micros) :
      IdealStep maximumRows rows (.cleaned maximum sample victims)
        (KeyedTable.delete rows victims)

end

/-! ### Delays -/

variable {duration : Duration}

theorem toStd_eq_some {micros : Int} (h : toStd micros = some duration) :
    0 ≤ micros ∧ duration.nanos = micros.toNat * 1000 := by
  unfold toStd at h
  split_ifs at h with hrange
  cases h
  exact ⟨hrange.1, rfl⟩

theorem authoritativeElapsed_nanos (now response : Timestamp) :
    (authoritativeElapsed now response).nanos = (response.micros - now.micros).toNat * 1000 := by
  obtain ⟨n, hn, hn'⟩ := now
  obtain ⟨r, hr, hr'⟩ := response
  unfold authoritativeElapsed toStd
  by_cases hle : 0 ≤ r - n
  · have hrange : (r - n).toNat * 1000 ≤ Duration.maxNanos := by
      unfold timestampEnd at hn hn' hr hr'
      unfold Duration.maxNanos u64Max
      omega
    rw [dif_pos ⟨hle, hrange⟩]
    rfl
  · have hzero : (r - n).toNat = 0 := by omega
    simp only [hle, false_and, dite_false, Option.getD_none]
    rw [hzero]
    rfl

/-- A delay is measured from the sample to the response. -/
theorem isMicros_saturatingSub {row : Row}
    (h : durationUntil row.expiresAt now.micros = .ok duration) :
    (⟨duration.saturatingSub (authoritativeElapsed now response)⟩ : Delay).IsMicros
      (remainingMicros row now response) := by
  unfold durationUntil at h
  split at h
  · next d hd =>
      cases h
      obtain ⟨hpos, hnanos⟩ := toStd_eq_some hd
      unfold Delay.IsMicros remainingMicros
      simp only [Duration.saturatingSub, authoritativeElapsed_nanos, hnanos]
      omega
  · cases h

theorem pendingAllowance_eq_ok
    {limit : Capacity} {used : Nat} {remaining : Duration} {allowance : Allowance}
    (h : pendingAllowance limit used remaining = .ok allowance) :
    allowance.capacity = limit ∧ allowance.available = limit.get - used ∧
      allowance.replenishesAfter = ⟨remaining⟩ := by
  unfold pendingAllowance at h
  rw [Allowance.new_eq_ok (Nat.sub_le _ _)] at h
  split_ifs at h
  cases h
  exact ⟨rfl, rfl, rfl⟩

/-! ### The first refusal -/

/-- A search for the first position with a property, counted from an offset. -/
inductive Found (offset : Nat) (p : Nat → Prop) : Option Nat → Prop
  | nowhere (hnone : ∀ j, ¬ p j) : Found offset p none
  | first (j : Nat) (hp : p j) (hfirst : ∀ i < j, ¬ p i) : Found offset p (some (offset + j))

namespace Found

variable {p q : Nat → Prop} {found : Option Nat}

theorem head (hp : p 0) : Found offset p (some offset) :=
  .first 0 hp (by simp)

theorem tail (hp : ¬ p 0) (h : Found (offset + 1) (fun j => p (j + 1)) found) :
    Found offset p found := by
  cases h with
  | nowhere hnone =>
    refine .nowhere fun j => ?_
    cases j with
    | zero => exact hp
    | succ j => exact hnone j
  | first j hj hfirst =>
    rw [Nat.add_right_comm, Nat.add_assoc]
    refine .first (j + 1) hj fun i hi => ?_
    cases i with
    | zero => exact hp
    | succ i => exact hfirst i (by omega)

theorem not_of_none (h : Found offset p none) (j : Nat) : ¬ p j := by
  cases h with
  | nowhere hnone => exact hnone j

theorem of_some {j : Nat} (h : Found 0 p (some j)) : p j ∧ ∀ i < j, ¬ p i := by
  generalize hfound : some j = found at h
  cases h with
  | nowhere => simp at hfound
  | first i hi hfirst =>
    obtain rfl : j = i := by simpa using hfound
    exact ⟨hi, hfirst⟩

theorem congr (h : Found offset p found) (hiff : ∀ j, p j ↔ q j) : Found offset q found := by
  obtain rfl : p = q := funext fun j => propext (hiff j)
  exact h

end Found

section

variable [Sha256]

/-- The members of a batch without a row in a shard. -/
def missingIn (batch : List Member) (shard : CapacityShard) : Nat :=
  batch.countP fun member => member.2.isNone ∧ capacityShard member.1.counterKey = shard

theorem count_missingKeys (index : Nat) (batch : List Member) (shard : CapacityShard) :
    ((missingKeys index batch).map Prod.snd).count shard = missingIn batch shard := by
  induction batch generalizing index with
  | nil => rfl
  | cons member rest ih =>
    obtain ⟨check, _ | row⟩ := member
    · simp only [missingIn] at ih
      simp [missingKeys, missingIn, count_cons, countP_cons, ih]
    · simp only [missingIn] at ih
      simp [missingKeys, missingIn, ih]

theorem missingIn_members
    (rows : Rows) (checks : List (Check FixedWindowPolicy)) (shard : CapacityShard) :
    missingIn (members rows checks) shard = newRows rows checks shard := by
  rw [missingIn, newRows, members, countP_map, countP_map]
  refine countP_congr fun check _ => ?_
  simp [Finmap.lookup_eq_none]

/-- `first_capacity_denial` finds the first missing row without room. -/
theorem found_firstCapacityDenial
    (maximum : Nat) (rowCount pending : CapacityShard → Nat) (offset : Nat) (batch : List Member) :
    Found offset
      (fun j => ∃ check, batch[j]? = some (check, none) ∧
        maximum < rowCount (capacityShard check.counterKey) +
          pending (capacityShard check.counterKey) +
            missingIn (batch.take j) (capacityShard check.counterKey) + 1)
      (firstCapacityDenial maximum rowCount pending (missingKeys offset batch)) := by
  induction batch generalizing offset pending with
  | nil => exact .nowhere (by simp)
  | cons member rest ih =>
    obtain ⟨check, _ | row⟩ := member
    · simp only [missingKeys, firstCapacityDenial]
      split_ifs with hfull
      · exact .head ⟨check, rfl, hfull⟩
      · refine .tail (fun h => ?_) ((ih _ (offset + 1)).congr fun j => ?_)
        · obtain ⟨check', hcheck, hlt⟩ := h
          obtain rfl : check = check' := by simpa using hcheck
          exact hfull hlt
        · refine exists_congr fun check' => and_congr (by simp) ?_
          rw [Function.update_apply, take_succ_cons, missingIn, missingIn, countP_cons]
          by_cases hshard : capacityShard check'.counterKey = capacityShard check.counterKey
          · simp [hshard]
            omega
          · simp [hshard, Ne.symm hshard]
    · refine .tail (fun h => ?_) ((ih pending (offset + 1)).congr fun j => ?_)
      · obtain ⟨check', hcheck, -⟩ := h
        simp at hcheck
      · refine exists_congr fun check' => and_congr (by simp) ?_
        rw [take_succ_cons, missingIn, missingIn, countP_cons]
        simp

/-- The preflight finds the first full window. -/
theorem found_firstQuotaDenial (now : Int) (offset : Nat) (batch : List Member) : Found offset
      (fun j => ∃ check row, batch[j]? = some (check, some row) ∧ now < row.expiresAt ∧
        check.policy.limit.get - check.cost < row.used)
      ((firstQuotaDenial now offset batch).map Prod.fst) := by
  induction batch generalizing offset with
  | nil => exact .nowhere (by simp)
  | cons member rest ih =>
    obtain ⟨check, _ | row⟩ := member
    · exact .tail (by simp) ((ih (offset + 1)).congr fun j => by simp)
    · simp only [firstQuotaDenial]
      split_ifs with hfull
      · exact .head ⟨check, row, rfl, hfull.1, hfull.2⟩
      · refine .tail (fun h => ?_) ((ih (offset + 1)).congr fun j => by simp)
        obtain ⟨check', row', heq, hlt⟩ := h
        obtain ⟨rfl, rfl⟩ : check = check' ∧ row = row' := by simpa using heq
        exact hfull hlt

/-! ### Decisions -/

section Decisions

variable {maximumRows : Nat} {tables tables' : Tables} {request : Request}
  {checks : List (Check FixedWindowPolicy)} {reply : Reply}

variable {check : Check FixedWindowPolicy} {counts : List (CapacityShard × Nat)}
variable {rows : List (CounterKey × Row)} {held : Set Resource}

theorem getElem?_members {rows : Rows} {row : Option Row} :
    (members rows checks)[index]? = some (check, row) ↔
      checks[index]? = some check ∧ rows.lookup check.counterKey = row := by
  rw [members, getElem?_map, Option.map_eq_some_iff]
  constructor
  · rintro ⟨check', hcheck, heq⟩
    obtain ⟨rfl, rfl⟩ := Prod.mk.inj heq
    exact ⟨hcheck, rfl⟩
  · rintro ⟨hcheck, rfl⟩
    exact ⟨check, hcheck, rfl⟩

theorem not_fits_iff {now : Int} {row : Row} :
    ¬ Fits now check.cost check.policy.limit.get (some row) ↔
      now < row.expiresAt ∧ check.policy.limit.get - check.cost < row.used := by
  have hcost : check.cost ≤ check.policy.limit.get := check.cost_le
  unfold Fits
  rw [active_some]
  by_cases hact : now < row.expiresAt
  · simp [hact]
    omega
  · simp [hact]

/-- The capacity denial is the first refusal for want of room. -/
theorem Accounted.found_capacityDenial (h : Accounted maximumRows tables)
    (checks : List (Check FixedWindowPolicy)) (now : Int) :
    Found 0 (fun j => ∃ check, Refused maximumRows tables.rows checks now j check none)
      (capacityDenial maximumRows tables checks) := by
  refine (found_firstCapacityDenial _ _ _ _ _).congr fun j => exists_congr fun check => ?_
  have htake : (members tables.rows checks).take j = members tables.rows (checks.take j) :=
    map_take.symm
  rw [getElem?_members, htake, missingIn_members, h.counts]
  constructor
  · rintro ⟨⟨hcheck, hrow⟩, hlt⟩
    exact .capacity hcheck hrow (by omega)
  · intro hrefused
    cases hrefused with
    | capacity hcheck hrow hfull => exact ⟨⟨hcheck, hrow⟩, by omega⟩

/-- The quota denial is the first refusal for a full window. -/
theorem found_quotaDenial
    (maximumRows : Nat) (rows : Rows) (checks : List (Check FixedWindowPolicy)) (now : Int) :
    Found 0 (fun j => ∃ check row, Refused maximumRows rows checks now j check (some row))
      ((firstQuotaDenial now 0 (members rows checks)).map Prod.fst) := by
  refine (found_firstQuotaDenial _ _ _).congr fun j => exists_congr fun check =>
    exists_congr fun row => ?_
  rw [getElem?_members, ← not_fits_iff]
  constructor
  · rintro ⟨⟨hcheck, hrow⟩, hfull⟩
    exact .quota hcheck hrow hfull
  · intro hrefused
    cases hrefused with
    | quota hcheck hrow hfull => exact ⟨⟨hcheck, hrow⟩, hfull⟩

/-- The end of the window that the preflight reports. -/
theorem firstQuotaDenial_eq_some {now : Int} {batch : List Member} {expiresAt : Int}
    (h : firstQuotaDenial now offset batch = some (index, expiresAt)) :
    offset ≤ index ∧ ∃ check row, batch[index - offset]? = some (check, some row) ∧
      row.expiresAt = expiresAt := by
  induction batch generalizing offset with
  | nil => simp [firstQuotaDenial] at h
  | cons member rest ih =>
    have hrest : firstQuotaDenial now (offset + 1) rest = some (index, expiresAt) →
        offset ≤ index ∧ ∃ check row, (member :: rest)[index - offset]? =
          some (check, some row) ∧ row.expiresAt = expiresAt := by
      intro h
      obtain ⟨hle, hfound⟩ := ih h
      have hidx : index - offset = index - (offset + 1) + 1 := by omega
      rw [hidx, getElem?_cons_succ]
      exact ⟨by omega, hfound⟩
    obtain ⟨check, _ | row⟩ := member
    · exact hrest h
    · simp only [firstQuotaDenial] at h
      split_ifs at h
      · obtain ⟨rfl, rfl⟩ : offset = index ∧ row.expiresAt = expiresAt := by simpa using h
        exact ⟨le_rfl, check, row, by simp, rfl⟩
      · exact hrest h

theorem Proceeds.not_refused (h : Proceeds maximumRows tables checks now)
    (hacct : Accounted maximumRows tables)
    (index : Nat) (check : Check FixedWindowPolicy) (row : Option Row) :
    ¬ Refused maximumRows tables.rows checks now.micros index check row := by
  intro hrefused
  cases row with
  | none =>
    have hfound := hacct.found_capacityDenial checks now.micros
    rw [h.capacity] at hfound
    exact hfound.not_of_none index ⟨check, hrefused⟩
  | some row =>
    have hfound := found_quotaDenial maximumRows tables.rows checks now.micros
    rw [h.quota] at hfound
    exact hfound.not_of_none index ⟨check, row, hrefused⟩

theorem deniedAdmission_quota (hadm : request.Admissible) {pos : Nat}
    (hcheck : request.checks[pos]? = some check) (limit : Capacity) (retry elapsed : Duration) :
    deniedAdmission request.checks index (.quota limit retry) elapsed =
      .quotaDenied check.quotaMode index (finishQuotaDenial limit retry elapsed) := by
  have hmem := mem_of_getElem? hcheck
  obtain ⟨first, rest, hchecks⟩ := exists_cons_of_ne_nil hadm.nonempty
  have hmode : request.checks.head?.map Check.quotaMode = some check.quotaMode := by
    rw [hchecks, head?_cons, Option.map_some,
      hadm.modes first (by simp [hchecks]) check hmem]
  unfold deniedAdmission
  rw [hmode]
  cases check.quotaMode <;> rfl

/-- A capacity denial without an earlier full window. -/
theorem ideal_of_capacityDenial (hacct : Accounted maximumRows tables)
    (hcap : capacityDenial maximumRows tables checks = some index)
    (hquota : ∀ earlier < index, ∀ check row,
      ¬ Refused maximumRows tables.rows checks now.micros earlier check (some row))
    (elapsed : Duration) :
    IdealAdmission maximumRows tables.rows checks now response
      (deniedAdmission checks index .storageCapacity elapsed) tables.rows := by
  have hfound := hacct.found_capacityDenial checks now.micros
  rw [hcap] at hfound
  obtain ⟨⟨check, hrefused⟩, hfirst⟩ := hfound.of_some
  refine .capacity hrefused fun earlier hlt check row => ?_
  cases row with
  | none => exact fun h => hfirst earlier hlt ⟨check, h⟩
  | some row => exact hquota earlier hlt check row

/-- A quota denial without an earlier want of room. -/
theorem ideal_of_quotaDenial (hadm : request.Admissible) {denial : PendingDenial}
    (hquota : preflightDenial request.checks now.micros
      (firstQuotaDenial now.micros 0 (members tables.rows request.checks)) =
        .ok (some (index, denial)))
    (hcap : ∀ earlier < index, ∀ check,
      ¬ Refused maximumRows tables.rows request.checks now.micros earlier check none) :
    IdealAdmission maximumRows tables.rows request.checks now response
      (deniedAdmission request.checks index denial (authoritativeElapsed now response))
      tables.rows := by
  have hfound := found_quotaDenial maximumRows tables.rows request.checks now.micros
  cases hdenied : firstQuotaDenial now.micros 0 (members tables.rows request.checks) with
  | none =>
    rw [hdenied] at hquota
    cases hquota
  | some found =>
    obtain ⟨pos, expiresAt⟩ := found
    rw [hdenied, Option.map_some] at hfound
    obtain ⟨⟨check, row, hrefused⟩, hfirst⟩ := hfound.of_some
    obtain ⟨-, check', row', hget, hexp⟩ := firstQuotaDenial_eq_some hdenied
    obtain ⟨hcheck', hrow'⟩ := getElem?_members.mp hget
    cases hrefused with
    | quota hcheck hrow hfull =>
      obtain rfl : check = check' := by simpa [hcheck] using hcheck'
      obtain rfl : row = row' := by simpa [hrow] using hrow'
      subst hexp
      rw [hdenied] at hquota
      simp only [preflightDenial, hcheck] at hquota
      obtain ⟨retry, hretry, hquota⟩ := bind_eq_ok.mp hquota
      cases hquota
      rw [deniedAdmission_quota hadm hcheck]
      refine .quota (.quota hcheck hrow hfull) ?_ rfl
        (isMicros_saturatingSub hretry)
      intro earlier hlt check row
      cases row with
      | none => exact hcap earlier hlt check
      | some row => exact fun h => hfirst earlier hlt ⟨check, row, h⟩

/-- The denial of an admission is the first refusal of the ideal store. -/
theorem Denies.ideal (h : Denies maximumRows tables request now response reply)
    (hacct : Accounted maximumRows tables) (hadm : request.Admissible) :
    IdealStep maximumRows tables.rows (.decided request now response reply) tables.rows := by
  obtain ⟨quota, index, denial, hquota, hden, hreply⟩ := h
  refine .decided ?_ hreply
  have hcapFound := hacct.found_capacityDenial request.checks now.micros
  have hquotaFound := found_quotaDenial maximumRows tables.rows request.checks now.micros
  cases hcap : capacityDenial maximumRows tables request.checks with
  | none =>
    rw [hcap] at hden hcapFound
    subst hden
    exact ideal_of_quotaDenial hadm hquota
      fun earlier _ check hrefused => hcapFound.not_of_none earlier ⟨check, hrefused⟩
  | some capacityIndex =>
    rw [hcap] at hden hcapFound
    cases quota with
    | none =>
      cases hden
      rw [preflightDenial_eq_ok_none hquota] at hquotaFound
      exact ideal_of_capacityDenial hacct hcap
        (fun earlier _ check row hrefused =>
          hquotaFound.not_of_none earlier ⟨check, row, hrefused⟩) _
    | some quota =>
      obtain ⟨expiresAt, hdenied⟩ := preflightDenial_eq_ok_some hquota
      rw [hdenied, Option.map_some] at hquotaFound
      simp only [firstDenial] at hden
      split_ifs at hden with hlt
      · cases hden
        exact ideal_of_capacityDenial hacct hcap
          (fun earlier hearlier check row hrefused =>
            hquotaFound.of_some.2 earlier (hearlier.trans hlt) ⟨check, row, hrefused⟩) _
      · cases hden
        exact ideal_of_quotaDenial hadm hquota fun earlier hearlier check hrefused =>
          hcapFound.of_some.2 earlier (hearlier.trans_le (not_lt.mp hlt))
            ⟨check, hrefused⟩

section

variable (h : Updates tables request now response reply rows counts)
  (hproceeds : Proceeds maximumRows tables request.checks now)
include h hproceeds

/-- The rows that an allowed admission writes. -/
theorem Updates.rows_eq : rows = request.checks.map fun check =>
      (check.counterKey, idealRow tables.rows now.micros check) := by
  obtain ⟨allowances, hupsert, -, -⟩ := h
  rw [(upsertBatch_eq_ok hproceeds.quota hupsert).1, members, map_map]
  rfl

/-- An allowed admission is one of the ideal store. -/
theorem Updates.ideal (hacct : Accounted maximumRows tables) :
    IdealStep maximumRows tables.rows (.decided request now response reply)
      (KeyedTable.write tables.rows rows) := by
  rw [h.rows_eq hproceeds]
  obtain ⟨allowances, hupsert, -, hreply⟩ := h
  have hallows := (upsertBatch_eq_ok hproceeds.quota hupsert).2
  refine .decided (.allowed (hproceeds.not_refused hacct) ?_) hreply
  rw [forall₂_map_right_iff]
  refine (forall₂_map_left_iff.mp hallows).imp fun check allowance hallow => ?_
  obtain ⟨remaining, hrem, hpend⟩ := hallow
  obtain ⟨hcap, havail, hreplenishes⟩ := pendingAllowance_eq_ok hpend
  refine ⟨hcap, havail, ?_⟩
  simp only [finishAllowance, hreplenishes]
  exact isMicros_saturatingSub hrem

end

/-! ### Ledger -/

/-- A commit of written rows keeps the ledger exact. -/
theorem Accounted.updated (hacct : Accounted maximumRows tables)
    (hadm : request.Admissible) (hproceeds : Proceeds maximumRows tables request.checks now)
    (h : Updates tables request now response reply rows counts) :
    Accounted maximumRows
      ⟨KeyedTable.write tables.rows rows, writeLedger tables.ledger counts⟩ := by
  have hkeys : rows.map Prod.fst = request.checks.map Check.counterKey := by
    rw [h.rows_eq hproceeds, map_map]
    rfl
  obtain ⟨allowances, -, htrigger, -⟩ := h
  have hledger : ∀ shard, writeLedger tables.ledger counts shard = tables.ledger shard +
      ((missingKeys 0 (members tables.rows request.checks)).map Prod.snd).count shard :=
    writeLedger_capacityTrigger htrigger fun _ => rfl
  constructor
  · intro shard
    have hnodup : (rows.map Prod.fst).Nodup := hkeys ▸ hadm.keys
    refine (hledger shard).trans ?_
    rw [count_missingKeys, missingIn_members, hacct.counts, shardSize, shardSize,
      KeyedTable.classSize_write capacityShard hnodup, hkeys, newRows]
  · intro shard
    refine (hledger shard).le.trans ?_
    exact add_count_le_of_firstCapacityDenial hproceeds.capacity (hacct.le shard)

omit [Sha256] in
/-- A commit of deletions keeps the ledger exact. -/
theorem Accounted.deleted {maximum : Nat} {sample : Timestamp} {victims : List CounterKey}
    (hacct : Accounted maximumRows tables) (hvictims : Victims tables held maximum sample victims)
    (htrigger : capacityAfterDelete tables.ledger (victims.map capacityShard) = .ok counts) :
    Accounted maximumRows
      ⟨KeyedTable.delete tables.rows victims, writeLedger tables.ledger counts⟩ := by
  have hledger : ∀ shard, writeLedger tables.ledger counts shard =
      tables.ledger shard - (victims.map capacityShard).count shard :=
    writeLedger_capacityTrigger htrigger fun _ => rfl
  have hstored : ∀ key ∈ victims, key ∈ tables.rows := by
    intro key hkey
    obtain ⟨row, hrow, -⟩ := hvictims.expired key hkey
    exact Finmap.mem_of_lookup_eq_some hrow
  constructor
  · intro shard
    have hsize := KeyedTable.classSize_delete capacityShard hvictims.nodup hstored shard
    have hcount : (victims.map capacityShard).count shard =
        victims.countP fun key => capacityShard key = shard := by
      rw [List.count, countP_map]
      exact countP_congr fun key _ => by simp
    refine (hledger shard).trans ?_
    rw [hacct.counts, hcount, shardSize, shardSize]
    exact Nat.sub_eq_of_eq_add hsize.symm
  · intro shard
    exact (hledger shard).le.trans ((Nat.sub_le _ _).trans (hacct.le shard))

/-! ### All interleavings -/

/-- A transaction that ends is one step of the ideal store. -/
theorem Knows.ideal {tx : Tx} {event : Event} (hacct : Accounted maximumRows tables)
    (h : Knows maximumRows tables held tx) (hfin : Finish tables tx event tables') :
    IdealStep maximumRows tables.rows event tables'.rows := by
  cases hfin with
  | denied request now response reply =>
    obtain ⟨hadm, -, hdenies⟩ := h.phase
    exact hdenies.ideal hacct hadm
  | updated request now response reply rows counts =>
    obtain ⟨-, -, -, hproceeds, hupdates⟩ := h.phase
    exact hupdates.ideal hproceeds hacct
  | deleted maximum sample victims counts =>
    obtain ⟨hvictims, -, -⟩ := h.phase
    exact IdealStep.cleaned hvictims.nodup hvictims.length_le hvictims.expired

theorem Accounted.finish {tx : Tx} {event : Event} (hacct : Accounted maximumRows tables)
    (h : Knows maximumRows tables held tx) (hfin : Finish tables tx event tables') :
    Accounted maximumRows tables' := by
  cases hfin with
  | denied request now response reply => exact hacct
  | updated request now response reply rows counts =>
    obtain ⟨hadm, -, -, hproceeds, hupdates⟩ := h.phase
    exact hacct.updated hadm hproceeds hupdates
  | deleted maximum sample victims counts =>
    obtain ⟨hvictims, -, htrigger⟩ := h.phase
    exact hacct.deleted hvictims htrigger

/-- The lock protocol keeps the transactions apart. -/
theorem discipline (maximumRows : Nat) :
    Discipline (protocol maximumRows) (Accounted maximumRows) (Knows maximumRows) Rely where
  start tables _ h := .start tables h
  advance _ _ _ _ _ h hadvance := h.advance hadvance
  skip _ _ _ _ _ h hskip := h.skip hskip
  stable _ _ _ _ h hrely := h.stable hrely
  good _ _ _ _ _ hacct h hfin := hacct.finish h hfin
  keeps _ _ _ _ _ h hfin _ hdisj := h.keeps hfin hdisj
  ordered _ _ _ _ _ _ _ _ h h₂ hdisj hadvance hr hother := h.ordered h₂ hdisj hadvance hr hother

/-- Every interleaving of admissions and cleanups is serial, keeps the ledger
exact and within the limit, and never deadlocks. -/
theorem postgres_limiter_is_serial
    (maximumRows : Nat) {events : List (Option Event)} {sys : Sys Resource Tables Tx}
    (hrun : Run (Locking.Step (protocol maximumRows)) (Sys.initial Tables.initial) events sys) :
    Run (IdealStep maximumRows) ∅ events.reduceOption sys.db.rows ∧
      (∀ shard, sys.db.ledger shard = shardSize sys.db.rows shard ∧
        shardSize sys.db.rows shard ≤ maximumRows) ∧
      (∀ t, ¬ Relation.TransGen (WaitsFor (protocol maximumRows) sys) t t) ∧
      ∀ t, sys.txs t ≠ none →
        ∃ u, sys.txs u ≠ none ∧ ∀ v, ¬ WaitsFor (protocol maximumRows) sys u v := by
  have hinit := Accounted.initial maximumRows
  have hcons := (discipline maximumRows).consistent hinit hrun
  refine ⟨?_, fun shard => ?_, (discipline maximumRows).waitsFor_acyclic hcons,
    fun t ht => (discipline maximumRows).exists_not_waiting hcons ht⟩
  · exact (discipline maximumRows).serial Tables.rows
      (fun _ _ _ _ _ hacct h hfin => h.ideal hacct hfin)
      (Consistent.initial hinit) hrun
  · have hcounts := hcons.good.counts shard
    exact ⟨hcounts, hcounts ▸ hcons.good.le shard⟩

end Decisions

end

/-- The fingerprint of `loginPolicy` and the advisory digest of one of its keys. -/
@[reducible] def loginAdvisorySha256 : Sha256 :=
  .ofTable
    [(loginPolicy.fingerprintInput,
        0x1eaba2bf123b4024599fb627203066553aa46e5c95994e95a358a47bb00be770),
      (advisoryLockDomain ++ keyBytes
          ⟨0x1eaba2bf123b4024599fb627203066553aa46e5c95994e95a358a47bb00be770, 7⟩,
        0xddabd4d8c903b78d7f884adaf22e41e5896be9027ecbbd4beea254ece06c3e7f)]

/-- The time zero of the database. -/
def epoch : Timestamp := ⟨0, by decide, by decide⟩

theorem startedRow_login [Sha256] :
    startedRow epoch.micros (.new loginPolicy 7) = .ok ⟨1, 1000000⟩ := by
  have hmillis : windowMicros (.new loginPolicy 7) = ((1000 : Nat) : Int) * 1000 := rfl
  have hwindow : epoch.micros + windowMicros (.new loginPolicy 7) = 1000000 := by
    rw [hmillis]
    exact (zero_add _).trans (by norm_num)
  rw [startedRow, hwindow]
  exact if_pos (by decide)

section Login

variable [Sha256]

/-- A login of one subject. -/
def login : Request := .check (Check.new loginPolicy 7)

def loginKey : CounterKey := (Check.new loginPolicy 7).counterKey

/-- A login on the empty tables is admitted, once it has its advisory lock. -/
theorem login_admitted : ∃ allowance counts, Relation.ReflTransGen
      (fun x y => ∃ granted, (protocol 1).Advance Tables.initial x granted y)
      (.admission login (.lockingIds []))
      (.admission login (.updated epoch epoch (.decision (.allowed allowance))
        [(loginKey, ⟨1, 1000000⟩)] counts)) := by
  have hproceed : Advance 1 Tables.initial (.admission login (.preflight
      (firstCapacityDenial 1 (Function.update (fun _ => 0) (capacityShard loginKey) 0) (fun _ => 0)
        [(0, capacityShard loginKey)]))) [] (.admission login (.updating epoch)) :=
    .proceed rfl (by simp [firstCapacityDenial, firstDenial])
  have hrows : upsertRows epoch.micros 0 (members ∅ login.checks) =
      .ok [(0, Check.new loginPolicy 7, ⟨1, 1000000⟩)] :=
    bind_eq_ok.mpr ⟨_, startedRow_login, rfl⟩
  obtain ⟨allowance, hupsert⟩ : ∃ allowance, upsertBatch epoch.micros (members ∅ login.checks) =
      .ok ([(loginKey, ⟨1, 1000000⟩)], [allowance]) :=
    ⟨_, bind_eq_ok.mpr ⟨_, hrows, rfl⟩⟩
  have htrigger : capacityAfterInsert (fun _ => 0) [capacityShard loginKey] =
      .ok [(capacityShard loginKey, 1)] := by
    refine mapM_eq_ok.mpr (List.Forall₂.cons ?_ List.Forall₂.nil)
    rw [List.count_singleton_self]
    rfl
  exact ⟨_, _, .head ⟨_, .idsLocked login⟩ <|
    .head ⟨_, .noRow login _ [] Finmap.notMem_empty⟩ <| .head ⟨_, .rowsLocked login rfl⟩ <|
    .head ⟨_, .lockShard login _ (capacityShard loginKey) [] _⟩ <|
    .head ⟨_, .shardsLocked login _ _⟩ <| .head ⟨_, hproceed⟩ <|
    .head ⟨_, .upsert hupsert htrigger rfl⟩ .refl⟩

/-- A login is denied while the window of its subject is full. -/
theorem login_denied {tables : Tables} (hrow : tables.rows.lookup loginKey = some ⟨1, 1000000⟩) :
    ∃ denial, Relation.ReflTransGen
      (fun x y => ∃ granted, (protocol 1).Advance tables x granted y)
      (.admission login (.lockingIds (advisoryLockIds login.checks)))
      (.admission login (.denied epoch epoch (.decision (.denied denial)))) := by
  have hmembers : members tables.rows login.checks =
      [(Check.new loginPolicy 7, some ⟨1, 1000000⟩)] :=
    congrArg (fun row => [(Check.new loginPolicy 7, row)]) hrow
  have hmissing : [] = missingKeys 0 (members tables.rows login.checks) := by
    rw [hmembers]
    rfl
  have hquota : ∃ duration, preflightDenial login.checks epoch.micros
      (firstQuotaDenial epoch.micros 0 (members tables.rows login.checks)) =
      .ok (some (0, .quota loginPolicy.limit duration)) := by
    rw [hmembers]
    exact ⟨_, rfl⟩
  obtain ⟨duration, hquota⟩ := hquota
  exact ⟨_, .head ⟨_, .lockId login _ []⟩ <| .head ⟨_, .idsLocked login⟩ <|
    .head ⟨_, .lockRow login loginKey [] (Finmap.mem_of_lookup_eq_some hrow)⟩ <|
    .head ⟨_, .rowsLocked login hmissing⟩ <| .head ⟨_, .shardsLocked login [] _⟩ <|
    .head ⟨_, .deny hquota rfl rfl⟩ .refl⟩

end Login

/-- The result applies to two logins of one subject: the second waits for the first, which is
admitted, and is then denied. -/
theorem postgres_limiter_is_serial_logins : letI : Sha256 := loginAdvisorySha256
    ∃ before waiting after sys allowance denial,
      Run (Locking.Step (protocol 1)) (Sys.initial Tables.initial) before waiting ∧
      WaitsFor (protocol 1) waiting 1 0 ∧
      (∀ t, ¬ Relation.TransGen (WaitsFor (protocol 1) waiting) t t) ∧
      Run (Locking.Step (protocol 1)) waiting after sys ∧
      Run (IdealStep 1) ∅ [.decided login epoch epoch (.decision (.allowed allowance)),
        .decided login epoch epoch (.decision (.denied denial))] sys.db.rows := by
  let _ : Sha256 := loginAdvisorySha256
  obtain ⟨allowance, counts, hadmitted⟩ := login_admitted
  obtain ⟨id, hids⟩ : ∃ id, advisoryLockIds login.checks = [id] := ⟨_, rfl⟩
  let x : Tx := .admission login (.lockingIds [id])
  have hstart : Start 1 x := by
    rw [show x = .admission login (.lockingIds (advisoryLockIds login.checks)) by rw [hids]]
    exact @Start.admission _ 1 ⟨1, 1, by decide, by decide, by decide⟩ login rfl rfl
  let waiting : Sys Resource Tables Tx := ⟨Tables.initial, grant (fun _ => none) 0 [.advisory id],
    Function.update (Function.update (Function.update (fun _ => none) 0 (some x)) 1 (some x)) 0
      (some (.admission login (.lockingIds []))), 2⟩
  have hbefore : Run (Locking.Step (protocol 1)) (Sys.initial Tables.initial)
      [none, none, none] waiting :=
    .cons (.start hstart) <| .cons (.start hstart) <|
      .cons (.advance (x := x) rfl (.lockId login id []) fun _ _ => .inl rfl) (.nil _)
  have hwaits : WaitsFor (protocol 1) waiting 1 0 :=
    ⟨x, _, _, .advisory id, rfl, .lockId login id [], mem_singleton_self _,
      if_pos (mem_singleton_self _), Nat.zero_ne_one⟩
  have hheld : ∀ r, waiting.locks r = none ∨ waiting.locks r = some 0 := fun r =>
    (ite_eq_or_eq _ _ _).symm
  obtain ⟨first, between, hfirst, hevents, hdb, hothers, hfree⟩ := run_alone 0 waiting hadmitted
    rfl hheld (Finish.updated login epoch epoch _ _ counts)
  have hrow : between.db.rows.lookup loginKey = some ⟨1, 1000000⟩ := by
    rw [hdb]
    exact Finmap.lookup_insert _
  obtain ⟨denial, hdenied⟩ := login_denied hrow
  obtain ⟨second, sys, hsecond, hevents', -⟩ := run_alone 1 between hdenied
    ((hothers 1 Nat.one_ne_zero).trans (by rw [hids]; rfl)) (fun r => .inl (hfree r))
    (Finish.denied login epoch epoch _)
  obtain ⟨-, -, hacyclic, -⟩ := postgres_limiter_is_serial 1 hbefore
  obtain ⟨hserial, -⟩ := postgres_limiter_is_serial 1
    (hbefore.append (hfirst.append hsecond))
  refine ⟨_, waiting, _, sys, allowance, denial, hbefore, hwaits, hacyclic,
    hfirst.append hsecond, ?_⟩
  rw [reduceOption_append, reduceOption_append, hevents, hevents'] at hserial
  exact hserial

end Batter.Runlimit.Postgres
