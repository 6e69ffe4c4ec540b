import FairKernel.Proofs.PageAccounts
import FairKernel.Proofs.UserBytes

/-!
# Copies to and from user memory

What a copy between the kernel and user memory comes to is told by the pages that it touches: it
stops at the first of them that user code may not use in this way, and up to there it copies every
byte. The copies count in machine words and go on until no byte is left; written as such loops, they
always end, and no sum or difference on the way leaves the words.

The loops are relations here (`StoreLoop`, `LoadLoop`), with an outcome for each sum that could
overflow. They come to exactly one outcome, that of the functions `store` and `load`
(`storeLoop_iff`, `loadLoop_iff`): a page that is mapped does not end beyond the address space, so a
round that works on one is free of overflow (`round_of_access`). What `store` and `load` come to is
then told by the pages.
-/

namespace FairKernel

namespace UserMemory

variable {pages : Nat} {S : Nat → Prop} {m m' : UserMemory} {allowed : Permissions → Bool}
  {x count i n : Nat} {result : Except MemoryError Unit} {e : MemoryError}

/-! ### The pages that an access touches -/

/-- Whether some of the `count` bytes from `x` on lies in the page of number `n`. -/
def Touches (x count n : Nat) : Prop := ∃ y, x ≤ y ∧ y < x + count ∧ y / pageSize = n

/-- Whether the page of number `n` is mapped and allows what `allowed` tests. -/
def Allows (m : UserMemory) (allowed : Permissions → Bool) (n : Nat) : Prop :=
  ∃ physical permissions, m.table.lookup (n * pageSize) = some (physical, permissions) ∧
    allowed permissions

/-- What is said of a page that may not be used. -/
def refusal (m : UserMemory) (n : Nat) : MemoryError :=
  if m.table.isMapped (n * pageSize) then .permissionDenied (n * pageSize)
  else .notMapped (n * pageSize)

/-- The page of number `n` is the first one, going up, that an access to `count` bytes from `x` on
touches and may not use. -/
structure StopsAt (m : UserMemory) (allowed : Permissions → Bool) (x count n : Nat) : Prop where
  touched : Touches x count n
  refused : ¬ m.Allows allowed n
  first : ∀ n' < n, Touches x count n' → m.Allows allowed n'

/-- An access stops at one page only. -/
theorem StopsAt.unique {n' : Nat} (h : m.StopsAt allowed x count n)
    (h' : m.StopsAt allowed x count n') : n = n' := by
  rcases Nat.lt_trichotomy n n' with hlt | heq | hgt
  · exact absurd (h'.first n hlt h.touched) h.refused
  · exact heq
  · exact absurd (h.first n' hgt h'.touched) h'.refused

/-- A page may not be used if it is not mapped or its permissions do not allow it. -/
theorem not_allows_iff : ¬ m.Allows allowed n ↔ ∀ physical permissions,
    m.table.lookup (n * pageSize) = some (physical, permissions) → ¬ allowed permissions := by
  simp only [Allows, not_exists, not_and]

/-- To access a page fails exactly if it may not be used. -/
theorem access_eq_error_iff :
    m.access (n * pageSize) allowed = .error e ↔ ¬ m.Allows allowed n ∧ e = m.refusal n := by
  rw [not_allows_iff]
  unfold access
  cases hlookup : m.table.lookup (n * pageSize) with
  | none =>
    have hrefusal : m.refusal n = .notMapped (n * pageSize) :=
      if_neg (PageTable.not_isMapped_of_lookup hlookup)
    rw [hrefusal]
    exact ⟨fun h => ⟨nofun, (Except.error.inj h).symm⟩, fun h => congrArg Except.error h.2.symm⟩
  | some found =>
    have hrefusal : m.refusal n = .permissionDenied (n * pageSize) :=
      if_pos (PageTable.isMapped_of_lookup hlookup)
    rw [hrefusal]
    dsimp only
    by_cases hallowed : allowed found.2
    · rw [if_pos hallowed]
      exact iff_of_false nofun fun h => h.1 _ _ rfl hallowed
    · rw [if_neg hallowed]
      refine ⟨fun h => ⟨?_, (Except.error.inj h).symm⟩, fun h => congrArg Except.error h.2.symm⟩
      rintro _ _ ⟨⟩
      exact hallowed

/-- The page of a byte that is accessed is touched. -/
theorem touches_of_lt {y : Nat} (hlow : x ≤ y) (hhigh : y < x + count) :
    Touches x count (y / pageSize) := ⟨y, hlow, hhigh, rfl⟩

namespace GetsTo

/-- An access gets through if and only if it may use every page that it touches. -/
theorem ok_iff (h : m.GetsTo allowed x count i result) :
    result = .ok () ↔ ∀ n, Touches x count n → m.Allows allowed n := by
  obtain ⟨hreach, ⟨rfl, rfl⟩ | ⟨e, rfl, hlt, hstuck⟩⟩ := h
  -- it got to every byte, and so to every page
  · refine iff_of_true rfl ?_
    rintro n ⟨y, hlow, hhigh, rfl⟩
    obtain ⟨j, rfl⟩ := Nat.exists_eq_add_of_le hlow
    exact reaches_iff.mp (hreach j (by omega))
  -- it is stuck at a byte whose page it touches
  · refine iff_of_false nofun fun hall => ?_
    exact (access_eq_error_iff.mp hstuck).1 (hall _ (touches_of_lt (by omega) (by omega)))

/-- An access that fails stops at the page of the byte that it does not get to. -/
theorem stopsAt (h : m.GetsTo allowed x count i (.error e)) :
    m.StopsAt allowed x count ((x + i) / pageSize) ∧ e = m.refusal ((x + i) / pageSize) := by
  obtain ⟨hreach, ⟨hok, -⟩ | ⟨e', herror, hlt, hstuck⟩⟩ := h
  · cases hok
  cases herror
  obtain ⟨hrefused, heq⟩ := access_eq_error_iff.mp hstuck
  refine ⟨⟨touches_of_lt (by omega) (by omega), hrefused, ?_⟩, heq⟩
  -- a page before that one is the page of a byte that it got to
  rintro n hn ⟨y, hlow, -, rfl⟩
  obtain ⟨j, rfl⟩ := Nat.exists_eq_add_of_le hlow
  have hj : x + j < x + i := Nat.lt_of_not_le fun hle =>
    absurd (Nat.div_le_div_right hle) (Nat.not_le.mpr hn)
  exact reaches_iff.mp (hreach j (by omega))

/-- An access that does not get through answers what is said of the page at which it stops. -/
theorem error_iff (h : m.GetsTo allowed x count i result) :
    result = .error e ↔ ∃ n, m.StopsAt allowed x count n ∧ e = m.refusal n := by
  constructor
  · rintro rfl
    exact ⟨_, h.stopsAt⟩
  · rintro ⟨n, hstops, rfl⟩
    -- it got through, although it touches a page that it may not use
    cases result with
    | ok _ => exact absurd (h.ok_iff.mp rfl n hstops.touched) hstops.refused
    | error e' =>
      obtain ⟨hstops', rfl⟩ := h.stopsAt
      rw [hstops'.unique hstops]

/-- An access that stops at a page gets to the bytes before that page. -/
theorem lt_iff (h : m.GetsTo allowed x count i result) (hstops : m.StopsAt allowed x count n)
    {y : Nat} (hy : x ≤ y) : y < x + i ↔ y < n * pageSize := by
  obtain ⟨y₀, hlow, hhigh, hnum⟩ := hstops.touched
  have hpage : n * pageSize ≤ y₀ := hnum ▸ Nat.div_mul_le_self y₀ pageSize
  constructor
  · intro hlt
    by_contra hle
    -- the first byte of the page that is in the range
    have hfirst : max x (n * pageSize) / pageSize = n := by
      unfold pageSize at *
      omega
    obtain ⟨j, hj⟩ := Nat.exists_eq_add_of_le (Nat.le_max_left x (n * pageSize))
    have hreach := reaches_iff.mp (h.1 j (by omega))
    rw [← hj] at hreach
    exact hstops.refused (hfirst ▸ hreach)
  -- had it stopped earlier, it would have stopped at a page before
  · intro hlt
    by_contra hle
    obtain ⟨-, ⟨-, rfl⟩ | ⟨e, -, hi, hstuck⟩⟩ := h
    · omega
    · refine (access_eq_error_iff.mp hstuck).1 (hstops.first _ ?_ (touches_of_lt ?_ ?_))
      · exact (Nat.div_lt_iff_lt_mul (by decide)).mpr (by omega)
      · omega
      · omega

/-- How many bytes there are before the page at which an access stops. -/
theorem eq_sub (h : m.GetsTo allowed x count i result) (hstops : m.StopsAt allowed x count n) :
    i = n * pageSize - x := by
  have hend := h.lt_iff hstops (Nat.le_add_right x i)
  have hpage := h.lt_iff hstops (Nat.le_max_left x (n * pageSize))
  omega

end GetsTo

/-- Only the addresses that are written matter. -/
theorem Overlaid.congr {bytes : Bytes} {stop stop' : Nat}
    (h : m.Overlaid S pages x bytes stop m') (hstop : ∀ y, x ≤ y → (y < stop ↔ y < stop')) :
    m.Overlaid S pages x bytes stop' m' where
  table_eq := h.table_eq
  pool_eq := h.pool_eq
  byte?_eq y hy := by
    rw [h.byte?_eq y hy]
    exact if_congr (and_congr_right (hstop y)) rfl rfl
  contents_eq physical hpage hout := h.contents_eq physical hpage fun y hlow hhigh =>
    hout y hlow ((hstop y hlow).mp hhigh)

/-! ### Loops over machine words -/

/-- What one round of a copy works on. -/
structure Round where
  /-- Where the bytes begin in their page. -/
  offset : Nat
  /-- How many bytes the page takes. -/
  count : Nat
  /-- Where the next round begins. -/
  next : Nat

/-- The round of a copy at an address with `length` bytes left. Every sum and every difference has
to be a word. -/
def round (address length : Nat) : Except Panic Round := do
  let base := pageDown address
  let offset ← subWord address base
  let room ← subWord pageSize offset
  let count := min room length
  discard <| addWord offset count
  let next ← addWord base pageSize
  return { offset, count, next }

/-- The loop that writes bytes from `address` on, round by round, and the outcome to which it comes
if it ends. -/
inductive StoreLoop : UserMemory → Nat → Bytes →
    Except Panic (Except MemoryError Unit × UserMemory) → Prop
  | done (m : UserMemory) (address : Nat) : StoreLoop m address [] (.ok (.ok (), m))
  | stopped {m : UserMemory} {address : Nat} {bytes : Bytes} {e : MemoryError}
      (hne : bytes ≠ [])
      (haccess : m.access (pageDown address) Permissions.userWritable = .error e) :
      StoreLoop m address bytes (.ok (.error e, m))
  | overflow {m : UserMemory} {address : Nat} {bytes : Bytes} {physical : Physical} {cause : Panic}
      (hne : bytes ≠ [])
      (haccess : m.access (pageDown address) Permissions.userWritable = .ok physical)
      (hround : round address bytes.length = .error cause) :
      StoreLoop m address bytes (.error cause)
  | next {m : UserMemory} {address : Nat} {bytes : Bytes} {physical : Physical} {r : Round}
      {outcome : Except Panic (Except MemoryError Unit × UserMemory)}
      (hne : bytes ≠ [])
      (haccess : m.access (pageDown address) Permissions.userWritable = .ok physical)
      (hround : round address bytes.length = .ok r)
      (hrest : StoreLoop (m.writePage physical r.offset (bytes.take r.count)) r.next
        (bytes.drop r.count) outcome) :
      StoreLoop m address bytes outcome

/-- The loop that fills a buffer from `address` on, round by round, of which a first part has been
filled and the rest has not, and the outcome to which it comes if it ends. -/
inductive LoadLoop (m : UserMemory) : Nat → Bytes → Bytes →
    Except Panic (Bytes × Except MemoryError Unit) → Prop
  | done (address : Nat) (filled : Bytes) : LoadLoop m address filled [] (.ok (filled, .ok ()))
  | stopped {address : Nat} {filled rest : Bytes} {e : MemoryError}
      (hne : rest ≠ [])
      (haccess : m.access (pageDown address) Permissions.user = .error e) :
      LoadLoop m address filled rest (.ok (filled ++ rest, .error e))
  | overflow {address : Nat} {filled rest : Bytes} {physical : Physical} {cause : Panic}
      (hne : rest ≠ [])
      (haccess : m.access (pageDown address) Permissions.user = .ok physical)
      (hround : round address rest.length = .error cause) :
      LoadLoop m address filled rest (.error cause)
  | next {address : Nat} {filled rest : Bytes} {physical : Physical} {r : Round}
      {outcome : Except Panic (Bytes × Except MemoryError Unit)}
      (hne : rest ≠ [])
      (haccess : m.access (pageDown address) Permissions.user = .ok physical)
      (hround : round address rest.length = .ok r)
      (hrest : LoadLoop m r.next (filled ++ (m.pool.contents physical).read r.offset r.count)
        (rest.drop r.count) outcome) :
      LoadLoop m address filled rest outcome

/-- A page that is mapped does not end beyond the address space, so a round in it is free of
overflow. -/
theorem round_of_access {address length : Nat} {physical : Physical}
    (haccess : m.access (pageDown address) allowed = .ok physical) : round address length =
      .ok ⟨address % pageSize, min (pageSize - address % pageSize) length,
        pageDown address + pageSize⟩ := by
  obtain ⟨permissions, -, hlookup⟩ := lookup_of_access haccess
  have hlt : address / pageSize < userPages + 2 := PageTable.lt_of_lookup hlookup
  have hmod := Page.mod_pageSize_lt address
  have hsplit := Nat.div_add_mod' address pageSize
  -- neither the distance within the page nor the room that is left underflows
  have hoffset : subWord address (pageDown address) = .ok (address % pageSize) :=
    subWord_eq_ok.mpr ⟨Nat.div_mul_le_self .., by unfold pageDown; omega⟩
  have hroom : subWord pageSize (address % pageSize) = .ok (pageSize - address % pageSize) :=
    subWord_eq_ok.mpr ⟨hmod.le, rfl⟩
  have hstop : addWord (address % pageSize) (min (pageSize - address % pageSize) length) =
      .ok (address % pageSize + min (pageSize - address % pageSize) length) := by
    refine addWord_eq_ok.mpr ⟨?_, rfl⟩
    unfold wordLimit pageSize at *
    omega
  -- the next page begins within the address space or right at its end
  have hnext : addWord (pageDown address) pageSize = .ok (pageDown address + pageSize) := by
    refine addWord_eq_ok.mpr ⟨?_, rfl⟩
    unfold userPages frameAddress trampolineAddress addressLimit at hlt
    unfold pageDown wordLimit
    unfold pageSize at *
    omega
  simp only [round, hoffset, hroom, hstop, hnext, bind, Except.bind, discard, Functor.discard,
    Functor.mapConst, Except.map, Function.comp_apply, pure, Except.pure]

/-- Bytes are written to one page, and then the others from the next page on. -/
theorem store_of_ok {bytes : Bytes} {physical : Physical} (hne : bytes ≠ [])
    (haccess : m.access (pageDown x) Permissions.userWritable = .ok physical) {taken : Nat}
    (htaken : taken = min (pageSize - x % pageSize) bytes.length) :
    m.store x bytes = (m.writePage physical (x % pageSize) (bytes.take taken)).store
      (pageDown x + pageSize) (bytes.drop taken) := by
  rw [store, dif_neg hne, haccess, htaken, ← List.take_eq_take_min, ← List.drop_eq_drop_min]
  rfl

/-- **Stores end.** The loop comes to what `store` says, and to nothing else. -/
theorem storeLoop_iff {bytes : Bytes}
    {outcome : Except Panic (Except MemoryError Unit × UserMemory)} :
    StoreLoop m x bytes outcome ↔ outcome = .ok (m.store x bytes) := by
  -- the loop follows the recursion of `store`
  constructor
  · intro hloop
    induction hloop with
    | done => rw [store, dif_pos rfl]
    | stopped hne haccess => rw [store, dif_neg hne, haccess]
    | overflow hne haccess hround =>
      rw [round_of_access haccess] at hround
      cases hround
    | next hne haccess hround hrest ih =>
      rw [round_of_access haccess] at hround
      cases hround
      rw [ih, store_of_ok hne haccess rfl]
  -- the recursion of `store` is a run of the loop
  · rintro rfl
    fun_induction UserMemory.store m x bytes with
    | case1 => exact .done ..
    | case2 m x bytes hne e haccess => exact .stopped hne haccess
    | case3 m x bytes hne physical haccess offset page ih =>
      refine .next hne haccess (round_of_access haccess) ?_
      dsimp only
      rw [← List.take_eq_take_min, ← List.drop_eq_drop_min]
      exact ih

/-- What a buffer holds after it is filled from user memory as far as that can be read. -/
def fill (m : UserMemory) (x : Nat) (buffer : Bytes) : Bytes :=
  (m.load x buffer.length).1 ++ buffer.drop (m.load x buffer.length).1.length

/-- Nothing is filled. -/
theorem fill_nil (m : UserMemory) (x : Nat) : m.fill x [] = [] ∧ (m.load x 0).2 = .ok () := by
  have hload : m.load x 0 = ([], .ok ()) := by rw [load, dif_pos rfl]
  rw [fill, List.length_nil, hload]
  exact ⟨rfl, rfl⟩

/-- What cannot be read is left as it was. -/
theorem fill_of_error {buffer : Bytes} (hne : buffer ≠ [])
    (haccess : m.access (pageDown x) Permissions.user = .error e) :
    m.fill x buffer = buffer ∧ (m.load x buffer.length).2 = .error e := by
  have hload : m.load x buffer.length = ([], .error e) := by
    rw [load, dif_neg (mt List.length_eq_zero_iff.mp hne), haccess]
  rw [fill, hload]
  exact ⟨rfl, rfl⟩

/-- A buffer is filled from one page, and then its rest from the next page on. -/
theorem fill_of_ok {buffer : Bytes} {physical : Physical} (hne : buffer ≠ [])
    (haccess : m.access (pageDown x) Permissions.user = .ok physical) {taken : Nat}
    (htaken : taken = min (pageSize - x % pageSize) buffer.length) :
    m.fill x buffer = (m.pool.contents physical).read (x % pageSize) taken ++
        m.fill (pageDown x + pageSize) (buffer.drop taken) ∧
      (m.load x buffer.length).2 =
        (m.load (pageDown x + pageSize) (buffer.drop taken).length).2 := by
  have hmod := Page.mod_pageSize_lt x
  have hlength : buffer.length - (pageSize - x % pageSize) = (buffer.drop taken).length := by
    rw [List.length_drop]
    omega
  -- the piece lies within one page, so as many bytes are read
  have hfits : x % pageSize + taken ≤ pageSize := by omega
  have hpiece := (m.pool.contents physical).length_read hfits
  have hload : m.load x buffer.length =
      ((m.pool.contents physical).read (x % pageSize) taken ++
        (m.load (pageDown x + pageSize) (buffer.drop taken).length).1,
        (m.load (pageDown x + pageSize) (buffer.drop taken).length).2) := by
    rw [load, dif_neg (mt List.length_eq_zero_iff.mp hne), haccess]
    dsimp only
    rw [hlength, ← htaken]
  unfold fill
  rw [hload, List.length_append, hpiece, List.append_assoc, List.drop_drop]
  exact ⟨rfl, rfl⟩

/-- **Loads end.** The loop fills the buffer as `fill` says, and comes to nothing else. -/
theorem loadLoop_iff {filled rest : Bytes}
    {outcome : Except Panic (Bytes × Except MemoryError Unit)} :
    LoadLoop m x filled rest outcome ↔
      outcome = .ok (filled ++ m.fill x rest, (m.load x rest.length).2) := by
  -- the loop follows the recursion of `load`
  constructor
  · intro hloop
    induction hloop with
    | done address filled =>
      obtain ⟨hfill, hresult⟩ := m.fill_nil address
      rw [hfill, List.append_nil, List.length_nil, hresult]
    | stopped hne haccess =>
      obtain ⟨hfill, hresult⟩ := fill_of_error hne haccess
      rw [hfill, hresult]
    | overflow hne haccess hround =>
      rw [round_of_access haccess] at hround
      cases hround
    | next hne haccess hround hrest ih =>
      rw [round_of_access haccess] at hround
      cases hround
      obtain ⟨hfill, hresult⟩ := fill_of_ok hne haccess rfl
      rw [ih, hfill, hresult, List.append_assoc]
  -- by the bytes that are left, a run of the loop that comes to this outcome
  · rintro rfl
    induction hcount : rest.length using Nat.strong_induction_on generalizing x filled rest with
    | _ count ih =>
    subst hcount
    rcases eq_or_ne rest [] with rfl | hne
    · obtain ⟨hfill, hresult⟩ := m.fill_nil x
      rw [hfill, List.append_nil, List.length_nil, hresult]
      exact .done ..
    cases haccess : m.access (pageDown x) Permissions.user with
    | error e =>
      obtain ⟨hfill, hresult⟩ := fill_of_error hne haccess
      rw [hfill, hresult]
      exact .stopped hne haccess
    | ok physical =>
      obtain ⟨hfill, hresult⟩ := fill_of_ok hne haccess rfl
      rw [hfill, hresult, ← List.append_assoc]
      refine .next hne haccess (round_of_access haccess) (ih _ ?_ rfl)
      -- every round takes at least one byte
      have hmod := Page.mod_pageSize_lt x
      have hpos := List.length_pos_iff.mpr hne
      rw [List.length_drop]
      omega

/-! ### Copies are exact -/

/-- What a copy of `bytes` to user memory from `x` on comes to. -/
structure StoresExactly (S : Nat → Prop) (pages : Nat) (m : UserMemory) (x : Nat)
    (bytes : Bytes) : Prop where
  /-- The loop ends, without overflow. -/
  ends : ∀ outcome, StoreLoop m x bytes outcome ↔ outcome = .ok (m.store x bytes)
  ok_iff : (m.store x bytes).1 = .ok () ↔
    ∀ n, Touches x bytes.length n → m.Allows Permissions.userWritable n
  error_iff : ∀ e, (m.store x bytes).1 = .error e ↔
    ∃ n, m.StopsAt Permissions.userWritable x bytes.length n ∧ e = m.refusal n
  of_ok : (m.store x bytes).1 = .ok () →
    m.Overlaid S pages x bytes (x + bytes.length) (m.store x bytes).2 ∧
      (m.store x bytes).2.load x bytes.length = (bytes, .ok ())
  /-- What lies before the page at which the copy stops is written, and nothing else. -/
  of_stopsAt : ∀ n, m.StopsAt Permissions.userWritable x bytes.length n →
    m.Overlaid S pages x bytes (n * pageSize) (m.store x bytes).2

/-- What filling a buffer from user memory from `x` on comes to. -/
structure LoadsExactly (m : UserMemory) (x : Nat) (buffer : Bytes) : Prop where
  /-- The loop ends, without overflow, and leaves the rest of the buffer as it was. -/
  ends : ∀ outcome, LoadLoop m x [] buffer outcome ↔ outcome = .ok ((m.load x buffer.length).1 ++
    buffer.drop (m.load x buffer.length).1.length, (m.load x buffer.length).2)
  ok_iff : (m.load x buffer.length).2 = .ok () ↔
    ∀ n, Touches x buffer.length n → m.Allows Permissions.user n
  error_iff : ∀ e, (m.load x buffer.length).2 = .error e ↔
    ∃ n, m.StopsAt Permissions.user x buffer.length n ∧ e = m.refusal n
  of_ok : (m.load x buffer.length).2 = .ok () →
    (m.load x buffer.length).1.map some = (List.range buffer.length).map fun j => m.byte? (x + j)
  /-- What lies before the page at which the copy stops is read, and nothing else. -/
  of_stopsAt : ∀ n, m.StopsAt Permissions.user x buffer.length n →
    (m.load x buffer.length).1.map some =
      (List.range (n * pageSize - x)).map fun j => m.byte? (x + j)

/-- An access that gets through gets to the end. -/
theorem GetsTo.eq_of_ok (h : m.GetsTo allowed x count i result) (hok : result = .ok ()) :
    i = count := by
  obtain ⟨-, ⟨-, heq⟩ | ⟨e, herror, -⟩⟩ := h
  · exact heq
  · cases hok.symm.trans herror

/-- Storing is exact. -/
theorem Separate.storesExactly (h : m.Separate S pages) (x : Nat) (bytes : Bytes) :
    m.StoresExactly S pages x bytes := by
  obtain ⟨i, hgets, hoverlaid⟩ := h.exists_store x bytes
  exact {
    ends _ := storeLoop_iff
    ok_iff := hgets.ok_iff
    error_iff e := hgets.error_iff
    of_ok hok := ⟨hgets.eq_of_ok hok ▸ hoverlaid, h.load_store x bytes hok⟩
    of_stopsAt n hstops := hoverlaid.congr fun y => hgets.lt_iff hstops }

/-- Loading is exact. -/
theorem loadsExactly (m : UserMemory) (x : Nat) (buffer : Bytes) : m.LoadsExactly x buffer := by
  obtain ⟨i, hgets, hbytes⟩ := m.exists_load x buffer.length
  exact {
    ends _ := loadLoop_iff
    ok_iff := hgets.ok_iff
    error_iff e := hgets.error_iff
    of_ok hok := hgets.eq_of_ok hok ▸ hbytes
    of_stopsAt n hstops := hgets.eq_sub hstops ▸ hbytes }

end UserMemory

/-! ### The memory of a process -/

namespace Kernel.Accounted

variable {pages : Nat} {k : Kernel} {i : Fin slotCount} {space : AddressSpace}

/-- Behind the page numbers of a process there are its residents, then its trap frame, and last the
trampoline. -/
theorem place_of_lookup (h : k.Accounted pages) (hspace : (k.slot i).space = some space) {n : Nat}
    {physical : Physical} {permissions : Permissions}
    (hlookup : space.table.lookup (n * pageSize) = some (physical, permissions)) :
    (n < userPages ∧ ∃ a ∈ space.table.residents, physical = .pooled a) ∨
      (n = userPages ∧ physical = .pooled space.framePage) ∨
      (n = userPages + 1 ∧ physical = .outside trampolinePage) := by
  obtain ⟨hframe, htrampoline⟩ := h.entered i space hspace
  have hlast := PageTable.lt_of_lookup hlookup
  have hnumber : n < userPages ∨ n = userPages ∨ n = userPages + 1 := by omega
  rcases hnumber with hn | rfl | rfl
  -- a resident
  · obtain ⟨a, rfl⟩ := (h.sound hspace).pooled n hn _ _ hlookup
    exact .inl ⟨hn, a, PageTable.mem_residents_of_lookup hn hlookup, rfl⟩
  -- the trap frame
  · cases hframe.symm.trans hlookup
    exact .inr (.inl ⟨rfl, rfl⟩)
  -- the trampoline
  · cases htrampoline.symm.trans hlookup
    exact .inr (.inr ⟨rfl, rfl⟩)

/-- In the memory of every process distinct mapped pages have distinct physical pages. -/
theorem separate (h : k.Accounted pages) (hspace : (k.slot i).space = some space) :
    UserMemory.Separate (fun _ => True) pages ⟨space.table, k.pool⟩ where
  spans := h.spans
  covers _ _ _ _ _ := trivial
  isPage n physical permissions _ hlookup := by
    have hsound := h.sound hspace
    rcases h.place_of_lookup hspace hlookup with ⟨-, a, ha, rfl⟩ | ⟨-, rfl⟩ | ⟨-, rfl⟩
    · exact hsound.mem_pool (Multiset.mem_add.mpr (.inr (UserMemory.mem_pagesOf.mpr (.inl ha))))
    · exact (hsound.of_mem_others (Multiset.mem_cons_self ..)).1
    · trivial
  distinct n n' physical permissions permissions' _ _ hlookup hlookup' := by
    have hsound := h.sound hspace
    have hbelow := hsound.separate (h.entered i space hspace).isPrivate
    -- the trap frame is not a resident
    have hframe : space.framePage ∉ space.table.residents := fun hmem =>
      (hsound.of_mem_others (Multiset.mem_cons_self ..)).2 (UserMemory.mem_pagesOf.mpr (.inl hmem))
    -- two residents, or one of the three and another one
    rcases h.place_of_lookup hspace hlookup with ⟨hn, a, ha, rfl⟩ | ⟨rfl, rfl⟩ | ⟨rfl, rfl⟩ <;>
      rcases h.place_of_lookup hspace hlookup' with ⟨hn', b, hb, heq⟩ | ⟨rfl, heq⟩ | ⟨rfl, heq⟩
    · exact hbelow.distinct _ _ _ _ _ hn hn' hlookup hlookup'
    · cases heq
      exact absurd ha hframe
    · cases heq
    · cases heq
      exact absurd hb hframe
    · rfl
    · cases heq
    · cases heq
    · cases heq
    · rfl

end Kernel.Accounted

/-- **User copies are exact.** If distinct mapped pages have distinct physical pages, a copy to user
memory succeeds if and only if every page that it touches is mapped and user code may write it. Then
just these bytes are changed, and they are read back. Otherwise the copy names the first page that
it touches and may not use, and just the bytes before that page are changed. Filling a buffer from
user memory succeeds if and only if user code may use every page that it touches, and else fills
just the part before the first that it may not use. Neither overflows, and both end. -/
theorem user_copies_exact {pages : Nat} {m : UserMemory} (h : m.Separate (fun _ => True) pages)
    (x : Nat) (bytes buffer : Bytes) :
    m.StoresExactly (fun _ => True) pages x bytes ∧ m.LoadsExactly x buffer :=
  ⟨h.storesExactly x bytes, m.loadsExactly x buffer⟩

namespace UserMemory

/-- Two pages that user code may write, the first of them in a pool of two pages and the second
outside of it, and then one that user code may only read. -/
def scattered : UserMemory where
  table := ((PageTable.empty.withPage (0 * pageSize) (.pooled (2 * pageSize))
    { readable := true, writable := true, user := true }).withPage (1 * pageSize)
      (.outside (5 * pageSize)) { readable := true, writable := true, user := true }).withPage
        (2 * pageSize) (.pooled pageSize) { readable := true, user := true }
  pool :=
    { start := poolBase, stop := poolBase + 2 * pageSize, pages := Array.replicate 2 Page.zero,
      free := [] }

/-- What the scattered pages are. -/
theorem lookup_scattered (n : Nat) : scattered.table.lookup (n * pageSize) =
    if n = 2 then some (.pooled pageSize, { valid := true, readable := true, user := true })
    else if n = 1 then
      some (.outside (5 * pageSize),
        { valid := true, readable := true, writable := true, user := true })
    else if n = 0 then
      some (.pooled (2 * pageSize),
        { valid := true, readable := true, writable := true, user := true })
    else none := by
  have hpages : 2 < userPages := by decide +kernel
  unfold scattered
  rw [PageTable.lookup_withPage_page hpages, PageTable.lookup_withPage_page (by omega),
    PageTable.lookup_withPage_page (by omega), PageTable.lookup_empty]
  rfl

/-- They lie apart. -/
theorem separate_scattered : scattered.Separate (fun _ => True) 2 where
  spans := ⟨rfl, rfl, Array.size_replicate⟩
  covers _ _ _ _ _ := trivial
  isPage n physical permissions _ hlookup := by
    rw [lookup_scattered] at hlookup
    split at hlookup
    · cases hlookup
      exact mem_poolPages.mpr (by decide)
    split at hlookup
    · cases hlookup
      trivial
    split at hlookup
    · cases hlookup
      exact mem_poolPages.mpr (by decide)
    · cases hlookup
  distinct n n' physical permissions permissions' _ _ hlookup hlookup' := by
    have hsize : pageSize ≠ 2 * pageSize := by decide
    rw [lookup_scattered] at hlookup hlookup'
    grind

/-- User code may write the first two of them. -/
theorem allows_userWritable_scattered (n : Nat) :
    scattered.Allows Permissions.userWritable n ↔ n < 2 := by
  simp only [Allows, lookup_scattered]
  split_ifs <;> simp [Permissions.userWritable] <;> omega

/-- It may read the third besides. -/
theorem allows_user_scattered (n : Nat) : scattered.Allows Permissions.user n ↔ n < 3 := by
  simp only [Allows, lookup_scattered]
  split_ifs <;> simp <;> omega

end UserMemory

open UserMemory in
/-- Bytes that lie in both of the pages that user code may write are read back. A copy that begins
at the last byte of the second is stopped by the third, which may only be read, and filling a buffer
by the page after that. -/
theorem user_copies_exact_scattered :
    scattered.Separate (fun _ => True) 2 ∧
      (scattered.store (pageSize - 2) [1, 2, 3, 4]).2.load (pageSize - 2) 4 =
        ([1, 2, 3, 4], .ok ()) ∧
      (scattered.store (2 * pageSize - 1) [1, 2]).1 = .error (.permissionDenied (2 * pageSize)) ∧
      (scattered.store (2 * pageSize - 1) [1, 2]).2.byte? (2 * pageSize - 1) = some 1 ∧
      (scattered.load (3 * pageSize - 1) 2).2 = .error (.notMapped (3 * pageSize)) := by
  obtain ⟨hstore, -⟩ := user_copies_exact separate_scattered (pageSize - 2) [1, 2, 3, 4] []
  obtain ⟨hdenied, -⟩ := user_copies_exact separate_scattered (2 * pageSize - 1) [1, 2] []
  obtain ⟨-, hload⟩ := user_copies_exact separate_scattered (3 * pageSize - 1) [] [0, 0]
  have hdeniedAt : scattered.StopsAt Permissions.userWritable (2 * pageSize - 1) 2 2 := by
    refine ⟨⟨2 * pageSize, by decide⟩, by simp [allows_userWritable_scattered], fun n hn _ => ?_⟩
    exact (allows_userWritable_scattered n).mpr hn
  have hloadAt : scattered.StopsAt Permissions.user (3 * pageSize - 1) 2 3 := by
    refine ⟨⟨3 * pageSize, by decide⟩, by simp [allows_user_scattered], fun n hn _ => ?_⟩
    exact (allows_user_scattered n).mpr hn
  have hmapped : scattered.table.isMapped (2 * pageSize) :=
    PageTable.isMapped_of_lookup (lookup_scattered 2)
  have hunmapped : ¬ scattered.table.isMapped (3 * pageSize) :=
    PageTable.not_isMapped_of_lookup (lookup_scattered 3)
  refine ⟨separate_scattered, (hstore.of_ok (hstore.ok_iff.mpr ?_)).2,
    (hdenied.error_iff _).mpr ⟨2, hdeniedAt, (if_pos hmapped).symm⟩, ?_,
    (hload.error_iff _).mpr ⟨3, hloadAt, (if_neg hunmapped).symm⟩⟩
  · rintro n ⟨y, -, hhigh, rfl⟩
    rw [allows_userWritable_scattered]
    change y < pageSize - 2 + 4 at hhigh
    unfold pageSize at *
    omega
  · rw [(hdenied.of_stopsAt 2 hdeniedAt).byte?_eq _ trivial, if_pos (by decide)]
    rfl

end FairKernel
