import FairKernel.Proofs.Flushes
import FairKernel.Proofs.UserBytes

/-!
# Work on mappings and sizes

Mapping, unmapping, touching and resizing keep the accounts and the layout of a live process. None
of them ever gives a page back that is not of the pool, and none panics at all as long as every
offset in a file that a mapping shows is a word. A mapping whose pages were all asked for at once
has all of them.

The work is in three layers.

* **Requests.** What is asked for is checked first, without touching anything: `recordFor_eq` lists
  the checks in the order in which they are made, `fileFor_eq_ok_iff` says which files are granted,
  and `recordFor_eq_ok_iff` when there is a record for a request at all.

* **Pages.** A page for a mapping is taken from the pool, filled with what the mapping shows, and
  put into the table, or given back (`Accounted.leads_installPage`); several pages follow one
  another (`Accounted.leads_installPages`). `Installed` says what comes of it and, where it failed,
  why.

* **Calls.** A touch and a removal each have a rule, with one premise for each way in which it can
  go (`leads_touch_of`, `leads_unmap_of`); the rules for maps are with the new mappings. Every later
  statement about these calls starts from the rules and not from the code. The same holds of sizes,
  where growing and shrinking have one theorem each (`Accounted.leads_grow`,
  `Accounted.leads_shrink`).
-/

namespace FairKernel

/-! ### Records -/

namespace Mapping

variable {r : Mapping}

/-- All that can go wrong for good with what a page shows is the sum of the offsets, ... -/
theorem initialPage_eq_error_iff {page : Nat} {c : Panic} : r.initialPage page = .error c ↔
    c = .addOverflow ∧ r.file ≠ none ∧ wordLimit ≤ r.offset + (page - r.base) := by
  unfold initialPage
  cases hfile : r.file with
  | none => exact iff_of_false nofun fun h => h.2.1 rfl
  | some file =>
    by_cases hword : r.offset + (page - r.base) < wordLimit
    · simp only [addWord_eq_ok.mpr ⟨hword, rfl⟩, bind, Except.bind]
      refine iff_of_false (fun h => ?_) fun h => Nat.not_le.mpr hword h.2.2
      split at h
      · cases h
      · cases h
    · have hadd : addWord r.offset (page - r.base) = .error .addOverflow := if_neg hword
      simp only [hadd, bind, Except.bind, Except.error.injEq]
      exact ⟨fun h => ⟨h.symm, nofun, Nat.le_of_not_lt hword⟩, fun h => h.1.symm⟩

/-- ... and so it is when the first bytes are dropped. -/
theorem dropFirst_eq_error_iff {length : Nat} {c : Panic} : r.dropFirst length = .error c ↔
    c = .addOverflow ∧ length ≠ r.length ∧ wordLimit ≤ r.offset + length := by
  unfold dropFirst
  split
  · next hall => exact iff_of_false nofun fun h => h.2.1 hall
  next hpart =>
  by_cases hword : r.offset + length < wordLimit
  · rw [addWord_eq_ok.mpr ⟨hword, rfl⟩]
    exact iff_of_false nofun fun h => Nat.not_le.mpr hword h.2.2
  · have hadd : addWord r.offset length = .error .addOverflow := if_neg hword
    simp only [hadd, bind, Except.bind, Except.error.injEq]
    exact ⟨fun h => ⟨h.symm, hpart, Nat.le_of_not_lt hword⟩, fun h => h.1.symm⟩

/-- To look up what a page shows gives no page back. -/
theorem initialPage_ne_foreignPage (r : Mapping) (page : Nat) :
    r.initialPage page ≠ .error .foreignPage :=
  fun h => Panic.noConfusion (initialPage_eq_error_iff.mp h).1

/-- To drop the first bytes of a record gives no page back. -/
theorem dropFirst_ne_foreignPage (r : Mapping) (length : Nat) :
    r.dropFirst length ≠ .error .foreignPage :=
  fun h => Panic.noConfusion (dropFirst_eq_error_iff.mp h).1

/-- Every offset in the file that a mapping shows is a word. -/
def OffsetsFit (r : Mapping) : Prop := r.offset + r.length < wordLimit

/-- What a page of the mapping shows can be looked up, ... -/
theorem OffsetsFit.initialPage_ne_error (h : r.OffsetsFit) {page : Nat} (hc : r.covers page)
    (cause : Panic) : r.initialPage page ≠ .error cause := fun hfailed => by
  have hover := (initialPage_eq_error_iff.mp hfailed).2.2
  have hin := Mapping.covers_iff.mp hc
  unfold OffsetsFit at h
  omega

/-- ... and its first bytes can be dropped. -/
theorem OffsetsFit.dropFirst_ne_error (h : r.OffsetsFit) {length : Nat} (hle : length ≤ r.length)
    (cause : Panic) : r.dropFirst length ≠ .error cause := fun hfailed => by
  have hover := (dropFirst_eq_error_iff.mp hfailed).2.2
  unfold OffsetsFit at h
  omega

end Mapping

/-- A table that gained pages in a range has at most so many more. -/
theorem PageTable.Gains.residentCount_le {S : Nat → Permissions → Prop} {t t' : PageTable}
    {n count : Nat} (h : PageTable.Gains S t t')
    (hS : ∀ m permissions, S m permissions → n ≤ m ∧ m < n + count) :
    t'.residentCount ≤ t.residentCount + count := by
  have hsubset : (Finset.range userPages).filter (fun m => t'.isMapped (m * pageSize)) ⊆
      (Finset.range userPages).filter (fun m => t.isMapped (m * pageSize)) ∪
        (Finset.range count).image (n + ·) := by
    intro m hm
    obtain ⟨hlt, hmapped⟩ := Finset.mem_filter.mp hm
    rcases h.mapsOnly m (Finset.mem_range.mp hlt) hmapped with hold | ⟨permissions, hnew⟩
    · exact Finset.mem_union_left _ (Finset.mem_filter.mpr ⟨hlt, hold⟩)
    · obtain ⟨hlow, hhigh⟩ := hS m permissions hnew
      refine Finset.mem_union_right _ (Finset.mem_image.mpr ⟨m - n, ?_, Nat.add_sub_of_le hlow⟩)
      exact Finset.mem_range.mpr (Nat.sub_lt_left_of_lt_add hlow hhigh)
  refine (Finset.card_le_card hsubset).trans ((Finset.card_union_le _ _).trans ?_)
  exact Nat.add_le_add_left (Finset.card_image_le.trans (Finset.card_range count).le) _

open PageTable (Gains)

namespace Kernel

variable {pages : Nat} {k k' : Kernel} {p : Handle} {r : Mapping}

/-- Whether a request names whole pages of the window and a protection that there is. -/
structure IsFit (request : MappingRequest) : Prop where
  address_mod : request.address % pageSize = 0
  length_mod : request.length % pageSize = 0
  length_pos : 0 < request.length
  stop_le : windowBase + request.address + request.length ≤ windowEnd
  protection : request.protection = .readOnly ∨ request.protection = .readWrite

/-- What a mapping for a request of a process shows: zeros if it asks for no file, or else an open
file of the process that may be used as the mapping may be. -/
def Grants (k : Kernel) (p : Handle) (request : MappingRequest) : Option OpenFile → Prop
  | none => request.options.anonymous ∧ request.descriptor = noDescriptor ∧ request.offset = 0
  | some file => ¬ request.options.anonymous ∧
    (∃ descriptor : Nat, request.descriptor = descriptor ∧
      (k.slotOf p).file? descriptor = some file) ∧
    (request.protection.allowsWrite → file.writable) ∧
    (request.protection.allowsRead → file.readable) ∧ request.offset % pageSize = 0

/-- The record of a process for a request, given what it shows. -/
def recordOf (p : Handle) (request : MappingRequest) (file : Option OpenFile) : Mapping where
  owner := p
  file
  base := windowBase + request.address
  length := request.length
  offset := request.offset
  protection := request.protection
  options := request.options

/-- What a mapping for a request shows, if the process may use it so. -/
def fileFor (k : Kernel) (p : Handle) (request : MappingRequest) :
    Except MappingError (Option OpenFile) :=
  if request.options.anonymous then
    if request.descriptor ≠ noDescriptor ∨ request.offset ≠ 0 then .error .badFlags else .ok none
  else
    match request.descriptor with
    | .negSucc _ => .error .badDescriptor
    | .ofNat descriptor =>
      match (k.slotOf p).file? descriptor with
      | none => .error .badDescriptor
      | some file =>
        if (request.protection.allowsWrite && !file.writable)
            || (request.protection.allowsRead && !file.readable) then .error .filePermission
        else if request.offset % pageSize ≠ 0 then .error .misaligned
        else .ok (some file)

/-- The checks of a request, one after the other. -/
theorem recordFor_eq (k : Kernel) (p : Handle) (request : MappingRequest) :
    k.recordFor p request =
      if request.address % pageSize ≠ 0 ∨ request.length % pageSize ≠ 0 then .error .misaligned
      else if request.length = 0 then .error .badLength
      else if windowEnd < windowBase + request.address + request.length then .error .outOfRange
      else if request.protection ≠ .readOnly ∧ request.protection ≠ .readWrite then
        .error .badProtection
      else recordOf p request <$> k.fileFor p request := by
  unfold recordFor
  simp only [throw, throwThe, MonadExceptOf.throw, bind, Except.bind, pure, Except.pure]
  -- a request that is misaligned, empty, out of the window or of no protection is refused, ...
  split
  · rfl
  split
  · rfl
  split
  · rfl
  split
  · rfl
  -- ... and of one that passes, the file decides
  unfold fileFor
  split
  · split <;> rfl
  cases request.descriptor with
  | negSucc _ => rfl
  | ofNat descriptor =>
    cases hopen : (k.slotOf p).file? descriptor with
    | none => simp only [hopen]; rfl
    | some file =>
      simp only [hopen]
      split
      · rfl
      · split <;> rfl

/-- A file lacks no right that a protection needs exactly if it has each of them. -/
theorem not_lacking_iff {protection : Protection} {file : OpenFile} :
    ¬ ((protection.allowsWrite && !file.writable) ||
        (protection.allowsRead && !file.readable)) = true ↔
      (protection.allowsWrite → file.writable) ∧ (protection.allowsRead → file.readable) := by
  simp only [Bool.or_eq_true, Bool.and_eq_true, Bool.not_eq_true', not_or, not_and,
    Bool.not_eq_false]

/-- A file is found for a request exactly if it is granted. -/
theorem fileFor_eq_ok_iff {request : MappingRequest} {file : Option OpenFile} :
    k.fileFor p request = .ok file ↔ k.Grants p request file := by
  unfold fileFor
  split
  · next hanonymous =>
    cases file with
    -- zeros ask for no file: the descriptor and the offset must say so
    | none =>
      split
      · next hflags => exact iff_of_false nofun fun h => hflags.elim (· h.2.1) (· h.2.2)
      · next hplain =>
        obtain ⟨hdescriptor, hoffset⟩ := not_or.mp hplain
        exact iff_of_true rfl ⟨hanonymous, not_not.mp hdescriptor, not_not.mp hoffset⟩
    | some file =>
      refine iff_of_false (fun h => ?_) fun h => h.1 hanonymous
      split at h <;> cases h
  -- a file is asked for by its descriptor, which must be that of an open file, ...
  next hnamed =>
  cases file with
  | none =>
    refine iff_of_false (fun h => ?_) fun h => hnamed h.1
    repeat' split at h
    all_goals cases h
  | some file =>
  split
  · next hdescriptor =>
    refine iff_of_false nofun fun ⟨_, ⟨descriptor, heq, _⟩, _⟩ => ?_
    rw [hdescriptor] at heq
    cases heq
  next descriptor hdescriptor =>
  -- the descriptor names at most one file
  have hnames : (∃ d : Nat, request.descriptor = d ∧ (k.slotOf p).file? d = some file) ↔
      (k.slotOf p).file? descriptor = some file := by
    refine ⟨fun ⟨d, heq, hopen⟩ => ?_, fun hopen => ⟨descriptor, hdescriptor, hopen⟩⟩
    rw [hdescriptor] at heq
    cases heq
    exact hopen
  simp only [Grants, hnames]
  split
  · next hclosed =>
    rw [hclosed]
    exact iff_of_false nofun fun h => Option.some_ne_none file h.2.1.symm
  next opened hopen =>
  rw [hopen, Option.some.injEq]
  -- ... with the rights that the protection needs, and from a page boundary on
  split
  · next hrights =>
    refine iff_of_false nofun fun ⟨_, heq, hwrite, hread, _⟩ => ?_
    subst heq
    exact not_lacking_iff.mpr ⟨hwrite, hread⟩ hrights
  next hrights =>
  split
  · next hoffset => exact iff_of_false nofun fun h => hoffset h.2.2.2.2
  next hoffset =>
  obtain ⟨hwrite, hread⟩ := not_lacking_iff.mp hrights
  refine ⟨?_, fun h => by rw [h.2.1]⟩
  rintro ⟨⟩
  exact ⟨hnamed, rfl, hwrite, hread, not_not.mp hoffset⟩

/-- **Validation.** There is a record for a request exactly if the request is fit and what it asks
to be shown is granted. -/
theorem recordFor_eq_ok_iff {request : MappingRequest} : k.recordFor p request = .ok r ↔
    IsFit request ∧ ∃ file, k.Grants p request file ∧ r = recordOf p request file := by
  rw [recordFor_eq]
  split
  · next halign =>
    exact iff_of_false nofun fun h => halign.elim (· h.1.address_mod) (· h.1.length_mod)
  next halign =>
  split
  · next hzero => exact iff_of_false nofun fun h => h.1.length_pos.ne' hzero
  next hpos =>
  split
  · next hout => exact iff_of_false nofun fun h => Nat.not_le.mpr hout h.1.stop_le
  next hrange =>
  split
  · next hprot => exact iff_of_false nofun fun h => h.1.protection.elim hprot.1 hprot.2
  next hprot =>
  obtain ⟨haddress, hlength⟩ := not_or.mp halign
  have hfit : IsFit request := ⟨not_not.mp haddress, not_not.mp hlength, Nat.pos_of_ne_zero hpos,
    Nat.le_of_not_lt hrange, (not_and_or.mp hprot).imp not_not.mp not_not.mp⟩
  simp only [map_eq_ok, fileFor_eq_ok_iff, hfit, true_and, eq_comm (a := r)]

/-- What a record is made of for a request. -/
structure RecordFor (p : Handle) (request : MappingRequest) (r : Mapping) : Prop where
  owner_eq : r.owner = p
  inWindow : r.InWindow
  base_eq : r.base = windowBase + request.address
  length_eq : r.length = request.length
  offset_eq : r.offset = request.offset
  options_eq : r.options = request.options

/-- A record for a request is that of its process and lies in the window. -/
theorem of_recordFor {request : MappingRequest} (h : k.recordFor p request = .ok r) :
    RecordFor p request r := by
  obtain ⟨hfit, file, -, rfl⟩ := recordFor_eq_ok_iff.mp h
  have hwindow : windowBase % pageSize = 0 := by decide
  refine ⟨rfl, ⟨?_, hfit.length_mod, Nat.le_add_right _ _, hfit.stop_le⟩, rfl, rfl, rfl, rfl⟩
  exact (Nat.add_mod ..).trans (by rw [hwindow, hfit.address_mod]; rfl)

/-- A record that is found is one of the process, and satisfies the condition. -/
theorem of_findRecord? {condition : Mapping → Bool} {i : Fin mappingLimit}
    (h : k.findRecord? p condition = some (i, r)) :
    k.record i = some r ∧ r.owner = p ∧ condition r := by
  obtain ⟨j, -, hj⟩ := List.exists_of_findSome?_eq_some h
  obtain ⟨r', hr', heq⟩ := Option.map_eq_some_iff.mp hj
  cases heq
  obtain ⟨hmem, hcond⟩ := Option.filter_eq_some_iff.mp hr'
  rw [Bool.and_eq_true, beq_iff_eq] at hcond
  exact ⟨hmem, hcond⟩

/-- Every mapping shows offsets that are words. -/
def OffsetsFit (k : Kernel) : Prop := ∀ (j : Fin mappingLimit) r, k.record j = some r → r.OffsetsFit

/-- A search without result: no record of the process satisfies the condition. -/
theorem not_of_findRecord? {condition : Mapping → Bool}
    (h : k.findRecord? p condition = none) {j : Fin mappingLimit} (hr : k.record j = some r)
    (howner : r.owner = p) : ¬ condition r := by
  intro hcond
  have hnone := List.findSome?_eq_none_iff.mp h j (List.mem_finRange j)
  have hfound : (k.record j).filter (fun r => r.owner == p && condition r) = some r := by
    rw [hr, Option.filter_eq_some_iff, Bool.and_eq_true, beq_iff_eq]
    exact ⟨rfl, howner, hcond⟩
  rw [hfound] at hnone
  cases hnone

/-! ### Installing pages -/

/-- Where there was no page, one may have come that shows what a mapping shows at first. -/
def Fills (r : Mapping) (S : Nat → Prop) (m m' : UserMemory) : Prop :=
  ∀ x, x / pageSize < userPages → m'.byte? x = m.byte? x ∨
    m.byte? x = none ∧ S (x / pageSize) ∧ ∃ page, r.initialPage (pageDown x) = .ok (.ok page) ∧
      m'.byte? x = some (page.byteAt x)

/-- Where pages may have come is told less exactly. -/
theorem Fills.mono {S S' : Nat → Prop} {m m' : UserMemory} (h : Fills r S m m')
    (hS : ∀ n, S n → S' n) : Fills r S' m m' := fun x hx => (h x hx).imp_right
  fun ⟨hnone, hn, hpage⟩ => ⟨hnone, hS _ hn, hpage⟩

/-- Where pages have come in two steps they came in one of them. -/
theorem Fills.trans {S : Nat → Prop} {m m' m'' : UserMemory} (h : Fills r S m m')
    (h' : Fills r S m' m'') : Fills r S m m'' := by
  intro x hx
  rcases h' x hx with hsame' | ⟨hnone', hnew'⟩
  · rw [hsame']
    exact h x hx
  · rcases h x hx with hsame | ⟨-, -, page, -, hnew⟩
    · exact .inr ⟨hsame ▸ hnone', hnew'⟩
    · rw [hnew] at hnone'
      cases hnone'

/-- What comes of `count` pages from page `n` on that are installed for a mapping. -/
structure Installed (pages : Nat) (p : Handle) (r : Mapping) (n count : Nat) (k : Kernel)
    (result : Except MappingError Unit) (k' : Kernel) : Prop extends Tabled pages p k k' where
  gains : Gains (fun m permissions => (n ≤ m ∧ m < n + count) ∧
    permissions = r.permissions.validated) (k.slotOf p).table (k'.slotOf p).table
  fills : Fills r (fun m => n ≤ m ∧ m < n + count) (k.memory p) (k'.memory p)
  mapped : result = .ok () → ∀ m, n ≤ m → m < n + count →
    (k'.slotOf p).table.isMapped (m * pageSize)
  /-- There were too few free pages, or a page could not be read. -/
  cause : ∀ e, result = .error e → e = .memory .outOfMemory ∧ k.pool.freeCount < count ∨
    ∃ m, (n ≤ m ∧ m < n + count) ∧ r.initialPage (m * pageSize) = .ok (.error e)
  /-- The page that could not be installed is as it was. -/
  stuck : ∀ e, result = .error e → ∃ m, (n ≤ m ∧ m < n + count) ∧
    (k'.slotOf p).table.lookup (m * pageSize) = (k.slotOf p).table.lookup (m * pageSize)

/-- An attempt that changes no page. -/
theorem Tabled.installed {n : Nat} {e : MappingError} (h : k.Tabled pages p k')
    (htable : (k'.slotOf p).table = (k.slotOf p).table)
    (hbytes : ∀ x, x / pageSize < userPages → (k'.memory p).byte? x = (k.memory p).byte? x)
    (hcause : e = .memory .outOfMemory ∧ k.pool.freeCount < 1 ∨
      ∃ m, (n ≤ m ∧ m < n + 1) ∧ r.initialPage (m * pageSize) = .ok (.error e)) :
    k.Installed pages p r n 1 (.error e) k' where
  toTabled := h
  gains _ _ := .inl (by rw [htable])
  fills x hx := .inl (hbytes x hx)
  mapped := nofun
  cause := by
    rintro _ ⟨⟩
    exact hcause
  stuck _ _ := ⟨n, ⟨Nat.le_refl n, Nat.lt_succ_self n⟩, by rw [htable]⟩

/-- As many pages are taken from the pool as come into the table. -/
theorem Tabled.freeCount_le (h : k.Tabled pages p k') (hk : k.Accounted pages) {n count : Nat}
    {S : Nat → Permissions → Prop} (hgains : Gains S (k.slotOf p).table (k'.slotOf p).table)
    (hS : ∀ m permissions, S m permissions → n ≤ m ∧ m < n + count) :
    k.pool.freeCount ≤ k'.pool.freeCount + count := by
  have hcount := hgains.residentCount_le hS
  have hcard : ((k'.slotOf p).table.residents + (k'.pool.free : Multiset Nat)).card =
      ((k.slotOf p).table.residents + (k.pool.free : Multiset Nat)).card :=
    congrArg Multiset.card h.pagesOf_eq
  have hpooled : (k.slotOf p).table.IsPooled := hk.pooled p.slot
  have hpooled' : (k'.slotOf p).table.IsPooled := h.accounted.pooled p.slot
  rw [Multiset.card_add, Multiset.card_add, PageTable.card_residents hpooled,
    PageTable.card_residents hpooled', Multiset.coe_card, Multiset.coe_card] at hcard
  unfold Pool.freeCount
  omega

/-- A page of the pool was filled and came into the table. -/
theorem Tabled.installed_of_placed {others : Multiset Nat} {address n : Nat} {contents : Page}
    (h : k.Tabled pages p k') (hsound : (k.memory p).Sound pages others)
    (hplaced : UserMemory.Placed pages others address n contents r.permissions (k.memory p) (.ok ())
      (k'.memory p))
    (hfilled : r.initialPage (n * pageSize) = .ok (.ok contents)) :
    k.Installed pages p r n 1 (.ok ()) k' := by
  obtain ⟨-, hnone, hlookup, hcontents, -⟩ := hplaced.of_ok rfl
  have hfound := hlookup n
  rw [if_pos rfl] at hfound
  refine ⟨h, fun a _ => ?_, fun x hx => ?_, fun _ a hle hlt => ?_, nofun, nofun⟩
  · by_cases ha : a = n
    · subst ha
      exact .inr ⟨hnone, _, _, hfound, by omega, rfl⟩
    · exact .inl ((hlookup a).trans (if_neg ha))
  · by_cases hpage : x / pageSize = n
    · have hdown : pageDown x = n * pageSize := congrArg (· * pageSize) hpage
      rw [← hdown] at hnone hfound hfilled
      refine .inr ⟨UserMemory.byte?_eq_none_iff.mpr hnone, by omega, contents, hfilled, ?_⟩
      rw [UserMemory.byte?_of_lookup hfound, hcontents]
    · refine .inl (hsound.byte?_of_spared hplaced.toSpared hx ?_)
      exact (hlookup (x / pageSize)).trans (if_neg hpage)
  · obtain rfl : a = n := by omega
    exact PageTable.isMapped_of_lookup hfound

/-- A page in hand goes back to the pool, filled or not, and all is as it was before it was
taken. -/
theorem Accounted.leads_releasePage (h : k.Accounted pages) (hlive : k.IsLive p)
    {space : AddressSpace} (hspace : (k.slotOf p).space = some space) {address : Nat}
    {pool filled : Pool} (halloc : k.pool.alloc = some (address, pool))
    (hhand : UserMemory.Sound pages (address ::ₘ space.framePage ::ₘ k.othersOf p.slot)
      ⟨space.table, filled⟩)
    (hpages : UserMemory.pagesOf ⟨space.table, filled⟩ = UserMemory.pagesOf ⟨space.table, pool⟩)
    (hcontents : ∀ a ∈ poolPages pages, a ≠ address →
      filled.contents (.pooled a) = pool.contents (.pooled a)) {E : Panic → Prop} :
    Leads { k with pool := filled } (releasePage address) (fun _ k' => k.Tabled pages p k' ∧
      (k'.slotOf p).table = (k.slotOf p).table ∧
        ∀ x, x / pageSize < userPages → (k'.memory p).byte? x = (k.memory p).byte? x) E := by
  have hsound := h.sound hspace
  obtain ⟨pool', hrelease, hkept, hspared⟩ := hsound.put_back halloc hhand hpages hcontents
  unfold releasePage
  simp only [leads_bind, leads_get, hrelease]
  refine ⟨h.repool hlive hspace hkept, rfl, fun x hx => ?_⟩
  have hmemory : Kernel.memory { k with pool := pool' } p = ⟨space.table, pool'⟩ :=
    memory_of_space hspace
  rw [hmemory, memory_of_space hspace]
  exact hsound.byte?_of_spared hspared hx rfl

/-- A page for a mapping is taken from the pool and stays in the table, or is given back. -/
theorem Accounted.leads_installPage (h : k.Accounted pages) (hlive : k.IsLive p) (r : Mapping)
    {n : Nat} (hn : n < userPages) : Leads k (installPage p r (n * pageSize))
      (fun result k' => k.Installed pages p r n 1 result k')
      (fun c => r.initialPage (n * pageSize) = .error c) := by
  unfold installPage
  simp only [leads_bind, leads_get]
  split
  -- no page is left, ...
  · next hnone =>
    refine (Tabled.refl h hlive).installed rfl (fun _ _ => rfl) (.inl ⟨rfl, ?_⟩)
    rw [Pool.freeCount, Pool.alloc_eq_none_iff.mp hnone]
    exact Nat.one_pos
  -- ... or one is taken in hand, and has to be filled first
  next address pool halloc =>
  obtain ⟨space, hspace⟩ := h.space_of_handle hlive
  have hsound := h.sound hspace
  obtain ⟨hhand, -⟩ := hsound.alloc halloc
  have hmemory : k.memory p = ⟨space.table, k.pool⟩ := memory_of_space hspace
  simp only [leads_bind, leads_modify]
  refine leads_liftM.mpr ⟨fun filled hfilled => ?_, fun _ hc => hc⟩
  cases filled with
  -- what the page is to show cannot be had: it goes back to the pool
  | error e =>
    rw [leads_bind]
    refine (h.leads_releasePage hlive hspace halloc hhand rfl fun _ _ _ => rfl).imp
      fun _ k' hback => ?_
    obtain ⟨hk', htable, hbytes⟩ := hback
    exact hk'.installed htable hbytes (.inr ⟨n, by omega, hfilled⟩)
  | ok contents =>
    have hspace' : (Kernel.slotOf { k with pool := pool.setContents contents (.pooled address) }
      p).space = some space := hspace
    simp only [leads_bind, leads_modify]
    rw [leads_memoryOf hspace']
    split
    -- there is a page already, so the new one goes back to the pool
    · next hmapped =>
      have hpool := hhand.mem_of_hand.1
      have hwritten : UserMemory.Sound pages (address ::ₘ space.framePage ::ₘ k.othersOf p.slot)
          ⟨space.table, pool.setContents contents (.pooled address)⟩ :=
        hhand.setContents contents (.pooled address)
      rw [leads_bind]
      refine (h.leads_releasePage hlive hspace halloc hwritten
        (UserMemory.pagesOf_setContents ⟨space.table, pool⟩ contents (.pooled address))
        fun a ha hne => Pool.contents_setContents_of_ne hhand.spans hpool ha hne.symm contents).imp
        fun _ k' hback => ?_
      obtain ⟨hk', htable, hbytes⟩ := hback
      refine ⟨hk', htable ▸ .refl _ _, fun x hx => .inl (hbytes x hx), fun _ m hle hlt => ?_,
        nofun, nofun⟩
      obtain rfl : m = n := by omega
      rw [htable, Slot.table_of_space hspace]
      exact hmapped
    -- the page is put into the table, where nothing is in its way
    · next hmapped =>
      obtain ⟨result, m, hadopt, hplaced⟩ :=
        hsound.adopt_fresh halloc contents hn.le (fun heq => absurd heq hn.ne) r.permissions
      rw [leads_bind, leads_onMemory_of_ok (fun m => m.adopt (n * pageSize) address r.permissions)
        hspace' hadopt]
      have h₁ := h.tabled_of_kept hlive hspace hplaced.toKept
      rw [← memory_withSlot (k := k) (p := p) m { k.slotOf p with
        space := some { space with table := m.table } } rfl, ← hmemory] at hplaced
      cases result with
      | error e => exact absurd (hplaced.of_error e rfl).2 (hmemory ▸ hmapped)
      | ok _ =>
        have hinstalled := h₁.installed_of_placed (hmemory ▸ hsound) hplaced hfilled
        exact ⟨hinstalled.toTabled.congr rfl rfl rfl, hinstalled.gains, hinstalled.fills,
          hinstalled.mapped, nofun, nofun⟩

theorem Accounted.leads_installPages (h : k.Accounted pages) (hlive : k.IsLive p) (r : Mapping)
    {n count : Nat} (hn : n + count ≤ userPages) :
    Leads k (installPages p r (n * pageSize) count)
      (fun result k' => k.Installed pages p r n count result k')
      (fun c => ∃ m, (n ≤ m ∧ m < n + count) ∧ r.initialPage (m * pageSize) = .error c) := by
  -- by pages: the rest is installed in the kernel that the first one leaves behind
  induction count generalizing k n with
  | zero =>
    exact ⟨.refl h hlive, .refl _ _, fun _ _ => .inl rfl,
      fun _ m hle hlt => absurd hle (Nat.not_le.mpr hlt), nofun, nofun⟩
  | succ count ih =>
    unfold installPages
    rw [leads_bind]
    refine (h.leads_installPage hlive r (n := n) (by omega)).mono
      -- a panic in the first page, or in a later one, is one over what that page shows
      (fun installed k₁ h₁ => ?_) fun c hc => ⟨n, by omega, hc⟩
    have hgains₁ : Gains (fun m permissions => (n ≤ m ∧ m < n + (count + 1)) ∧
        permissions = r.permissions.validated) (k.slotOf p).table (k₁.slotOf p).table :=
      h₁.gains.mono fun m _ ⟨hm, hperm⟩ => ⟨by omega, hperm⟩
    have hfills₁ : Fills r (fun m => n ≤ m ∧ m < n + (count + 1)) (k.memory p) (k₁.memory p) :=
      h₁.fills.mono fun m hm => by omega
    cases installed with
    | error e =>
      refine ⟨h₁.toTabled, hgains₁, hfills₁, nofun, fun e' he' => ?_, fun e' he' =>
        (h₁.stuck e' he').imp fun m ⟨hm, hsame⟩ => ⟨by omega, hsame⟩⟩
      exact (h₁.cause e' he').imp (fun ⟨hdry, hfew⟩ => ⟨hdry, by omega⟩)
        fun ⟨m, hm, hfailed⟩ => ⟨m, by omega, hfailed⟩
    | ok _ =>
      rw [← Nat.add_one_mul]
      refine (ih h₁.accounted h₁.isLive (n := n + 1) (by omega)).mono
        (fun result k₂ h₂ => ?_) fun c ⟨m, hm, hc⟩ => ⟨m, by omega, hc⟩
      refine ⟨h₁.toTabled.trans h₂.toTabled,
        hgains₁.trans (h₂.gains.mono fun m _ ⟨hm, hperm⟩ => ⟨by omega, hperm⟩),
        hfills₁.trans (h₂.fills.mono fun m hm => by omega), fun hok m hle hlt => ?_,
        fun e he => ?_, fun e he => ?_⟩
      -- each page is mapped: the first one stays, the others are the work of the rest
      · by_cases hm : m = n
        · subst hm
          obtain ⟨found, hfound⟩ := Option.isSome_iff_exists.mp
            (h₁.mapped rfl m (Nat.le_refl m) (Nat.lt_succ_self m))
          exact PageTable.isMapped_of_lookup (h₂.gains.lookup_of_some (by omega) hfound)
        · exact h₂.mapped hok m (by omega) (by omega)
      -- the cause: as many pages as were installed are no longer free
      · have hfree := h₁.toTabled.freeCount_le h h₁.gains fun _ _ hin => hin.1
        exact (h₂.cause e he).imp (fun ⟨hdry, hfew⟩ => ⟨hdry, by omega⟩)
          fun ⟨m, hm, hfailed⟩ => ⟨m, by omega, hfailed⟩
      · obtain ⟨m, hm, hsame⟩ := h₂.stuck e he
        refine ⟨m, by omega, hsame.trans ?_⟩
        -- the first page is another one
        exact (h₁.gains m (by omega)).resolve_right fun ⟨_, _, _, _, hfirst, _⟩ => by omega

/-! ### Whole calls -/

/-- Bytes that are written only change contents of the pool. -/
theorem leads_storeUser {space : AddressSpace} {address : Nat} {bytes : Bytes}
    {Q : Except MemoryError Unit → Kernel → Prop} {E : Panic → Prop}
    (hspace : (k.slotOf p).space = some space) :
    Leads k (storeUser p address bytes) Q E ↔
      Q (UserMemory.store ⟨space.table, k.pool⟩ address bytes).1
        { k with pool := (UserMemory.store ⟨space.table, k.pool⟩ address bytes).2.pool } := by
  have hslot : { k.slotOf p with space := some { space with
      table := (UserMemory.store ⟨space.table, k.pool⟩ address bytes).2.table } } = k.slotOf p := by
    rw [UserMemory.table_store, ← hspace]
  have hself (pool : Pool) : { k with pool }.withSlot p.slot (k.slotOf p) = { k with pool } :=
    withSlot_slot { k with pool } p.slot
  unfold storeUser
  rw [leads_onMemory_of_ok (fun m => .ok (m.store address bytes)) hspace rfl, hslot, hself]

/-- Bytes that are written leave the table and the records alone. -/
theorem Accounted.tabled_store {space : AddressSpace} (h : k.Accounted pages) (hlive : k.IsLive p)
    (hspace : (k.slotOf p).space = some space) (address : Nat) (bytes : Bytes) :
    k.Tabled pages p
      { k with pool := (UserMemory.store ⟨space.table, k.pool⟩ address bytes).2.pool } := by
  refine h.repool hlive hspace ?_
  have hkept := (h.sound hspace).store (h.entered p.slot space hspace).isPrivate address bytes
  have htable := UserMemory.table_store ⟨space.table, k.pool⟩ address bytes
  generalize UserMemory.store ⟨space.table, k.pool⟩ address bytes = stored at hkept htable
  obtain ⟨result, table, pool⟩ := stored
  subst htable
  exact hkept

/-! ### Touching pages -/

/-- **Touches.** What comes of a touch is what comes of installing the page that is missing, unless
there is no mapping, or it may not be written, or the page is there. -/
theorem leads_touch_of {space : AddressSpace} {address : Nat} {access : Access}
    {Q : Except MappingError Unit → Kernel → Prop} {E : Panic → Prop}
    (hspace : (k.slotOf p).space = some space)
    (missing : (∀ (j : Fin mappingLimit) r, k.record j = some r → r.owner = p →
      ¬ r.covers address) → Q (.error (.noMapping address)) k)
    (guarded : ∀ (i : Fin mappingLimit) r, k.record i = some r → r.owner = p → r.covers address →
      access = .write ∧ !r.protection.allowsWrite → Q (.error (.writeProtected address)) k)
    (present : ∀ (i : Fin mappingLimit) r, k.record i = some r → r.owner = p → r.covers address →
      ¬ (access = .write ∧ !r.protection.allowsWrite) →
      (k.slotOf p).table.isMapped (pageDown address) → Q (.ok ()) k)
    (absent : ∀ (i : Fin mappingLimit) r, k.record i = some r → r.owner = p → r.covers address →
      ¬ (access = .write ∧ !r.protection.allowsWrite) →
      ¬ (k.slotOf p).table.isMapped (pageDown address) →
      Leads { k with console := k.consoleAfter (.pageTouched p.pid access address) }
        (installPage p r (pageDown address)) Q E) :
    Leads k (touch p address access) Q E := by
  have htable := Slot.table_of_space hspace
  unfold touch
  simp only [leads_bind, leads_get]
  -- no record of the process covers the address, ...
  split
  · next hnone => exact missing fun j r hr howner => not_of_findRecord? hnone hr howner
  -- ... or one does: it may forbid the access, the page may be there, or it has to be installed
  next i r hfound =>
  obtain ⟨hr, howner, hc⟩ := of_findRecord? hfound
  split
  · next hwrite => exact guarded i r hr howner hc hwrite
  next hallowed =>
  rw [leads_bind, leads_memoryOf hspace]
  split
  · next hmapped => exact present i r hr howner hc hallowed (htable.symm ▸ hmapped)
  next hmapped =>
  simp only [leads_bind, leads_note]
  exact absent i r hr howner hc hallowed (htable.symm ▸ hmapped)

/-- A page that is touched lies in the mapping that it is for. -/
theorem Accounted.leads_touch (h : k.Accounted pages) (hlive : k.IsLive p) (address : Nat)
    (access : Access) : Leads k (touch p address access)
      (fun _ k' => k.Arranged pages p k' ∧ k'.mappings = k.mappings ∧ k.Retains p k')
      (fun c => c ≠ .foreignPage ∧ ¬ k.OffsetsFit) := by
  obtain ⟨space, hspace⟩ := h.space_of_handle hlive
  have unchanged : k.Arranged pages p k ∧ k.mappings = k.mappings ∧ k.Retains p k :=
    ⟨.refl h hlive, rfl, .refl p k⟩
  refine leads_touch_of hspace (fun _ => unchanged) (fun _ _ _ _ _ _ => unchanged)
    (fun _ _ _ _ _ _ _ => unchanged) fun i r hr howner hcovers _ _ => ?_
  -- a page is installed only for a record that covers the address
  have hwindow := h.inWindow i r hr
  have hpage : r.covers (address / pageSize * pageSize) := hwindow.covers_pageDown hcovers
  have h₁ : k.Tabled pages p
      { k with console := k.consoleAfter (.pageTouched p.pid access address) } :=
    (Tabled.refl h hlive).congr rfl rfl rfl
  refine (h₁.accounted.leads_installPage h₁.isLive r (hwindow.lt_userPages_of_covers hpage)).mono
    (fun _ k' h' => ?_) fun c hc => ⟨?_, fun hfit => ?_⟩
  rotate_left
  · rintro rfl
    exact r.initialPage_ne_foreignPage _ hc
  · exact (hfit i r hr).initialPage_ne_error hpage c hc
  refine ⟨(h₁.trans h'.toTabled).arranged h'.gains fun n permissions ⟨hn, hperm⟩ => ?_,
    (h₁.trans h'.toTabled).mappings_same, (h₁.trans h'.toTabled).retains h'.gains⟩
  obtain rfl : n = address / pageSize := by omega
  exact ⟨i, r, hr, howner, hpage, hperm⟩

/-! ### Removing pages -/

/-- Pages of a mapping are removed from a table. -/
theorem Accounted.leads_unmapRange (h : k.Accounted pages) (hlive : k.IsLive p) {n count : Nat}
    (hn : n + count ≤ userPages) {E : Panic → Prop} :
    Leads k (onMemory p fun m => m.unmap (n * pageSize) count) (fun _ k' => k.Tabled pages p k' ∧
      (∀ a, (k'.slotOf p).table.lookup (a * pageSize) =
        if n ≤ a ∧ a < n + count then none else (k.slotOf p).table.lookup (a * pageSize)) ∧
      ∀ x, x / pageSize < userPages → (k'.memory p).byte? x =
        if n ≤ x / pageSize ∧ x / pageSize < n + count then none else (k.memory p).byte? x) E := by
  refine h.leads_onMemory hlive (fun _ m => (∀ a, m.table.lookup (a * pageSize) =
      if n ≤ a ∧ a < n + count then none else (k.slotOf p).table.lookup (a * pageSize)) ∧
    ∀ x, x / pageSize < userPages → m.byte? x =
      if n ≤ x / pageSize ∧ x / pageSize < n + count then none else (k.memory p).byte? x)
    fun others hm _ _ => ?_
  obtain ⟨removed, m', hunmap, hkept, hlookup, hcontents⟩ := hm.unmap hn
  refine ⟨removed, m', hunmap, hkept, hlookup, fun x hx => ?_⟩
  have hfound := hlookup (x / pageSize)
  split at hfound
  · next hin =>
    rw [if_pos hin]
    exact UserMemory.byte?_eq_none_iff.mpr hfound
  · next hout =>
    rw [if_neg hout]
    refine UserMemory.byte?_congr hfound fun physical permissions hold => ?_
    obtain ⟨a, rfl⟩ := hm.pooled _ hx _ _ hold
    exact hcontents a (PageTable.mem_residents_of_lookup hx (hfound.trans hold))

/-- What is still mapped lay outside of what was removed. -/
theorem isMapped_of_removed {t t' : PageTable} {n count a : Nat}
    (hlookup : t'.lookup (a * pageSize) =
      if n ≤ a ∧ a < n + count then none else t.lookup (a * pageSize))
    (hm : t'.isMapped (a * pageSize)) :
    ¬ (n ≤ a ∧ a < n + count) ∧ t.isMapped (a * pageSize) := by
  unfold PageTable.isMapped at hm ⊢
  rw [hlookup] at hm
  split at hm
  · cases hm
  · next hout => exact ⟨hout, hm⟩

/-- A range of whole pages. -/
structure IsWhole (address length : Nat) : Prop where
  length_pos : 0 < length
  address_mod : address % pageSize = 0
  length_mod : length % pageSize = 0

/-- A range of whole pages is not misaligned. -/
theorem IsWhole.aligned {address length : Nat} (h : IsWhole address length) :
    ¬ (address % pageSize ≠ 0 ∨ length % pageSize ≠ 0) :=
  not_or.mpr ⟨not_not.mpr h.address_mod, not_not.mpr h.length_mod⟩

/-- Why a removal is refused. -/
inductive RefusesRemoval (k : Kernel) (p : Handle) (address length : Nat) : MappingError → Prop
  | empty (length_eq : length = 0) : RefusesRemoval k p address length .badLength
  | misaligned (length_pos : 0 < length)
      (not_mod : address % pageSize ≠ 0 ∨ length % pageSize ≠ 0) :
      RefusesRemoval k p address length .misaligned
  | outside (whole : IsWhole address length)
      (out : address < windowBase ∨ windowEnd < address + length) :
      RefusesRemoval k p address length .outOfRange
  /-- No mapping of the process starts at the address, ... -/
  | unmatched (whole : IsWhole address length) (none : ∀ (j : Fin mappingLimit) r,
      k.record j = some r → r.owner = p → r.base ≠ address) :
      RefusesRemoval k p address length .noMatch
  /-- ... or one does that is shorter. -/
  | short {i : Fin mappingLimit} {r : Mapping} (whole : IsWhole address length)
      (found : k.record i = some r) (owner_eq : r.owner = p) (base_eq : r.base = address)
      (lt : r.length < length) : RefusesRemoval k p address length .noMatch

/-- A record of a process starts with a range of whole pages. -/
structure Starts (k : Kernel) (p : Handle) (address length : Nat) (i : Fin mappingLimit)
    (r : Mapping) : Prop extends IsWhole address length where
  record_eq : k.record i = some r
  owner_eq : r.owner = p
  base_eq : r.base = address
  length_le : length ≤ r.length

/-- The kernel once the machine is asked to flush what was removed. -/
def afterRemoval (k : Kernel) (p : Handle) (address length freed : Nat) : Kernel :=
  { k with
    flushedAt := k.pool.trail.length
    calls := .flushTlb :: k.calls
    console := k.consoleAfter (.unmapped p.pid address length freed) }

/-- **Removals.** What comes of a removal is what comes of its refusal or, once the record is cut
short, of taking the pages away. -/
theorem leads_unmap_of {address length : Nat} {Q : Except MappingError Unit → Kernel → Prop}
    {E : Panic → Prop} (refused : ∀ e, k.RefusesRemoval p address length e → Q (.error e) k)
    (overflows : ∀ i r, k.Starts p address length i r → ∀ c, r.dropFirst length = .error c → E c)
    (removed : ∀ i r, k.Starts p address length i r → ∀ rest, r.dropFirst length = .ok rest →
      Leads (k.withRecord i rest) (onMemory p fun m => m.unmap r.base (length / pageSize))
        (fun freed k' => Q (.ok ()) (k'.afterRemoval p address length freed)) E) :
    Leads k (unmap p address length) Q E := by
  unfold unmap
  -- the checks, in the order in which they are made
  split
  · next hzero => exact refused .badLength (.empty hzero)
  next hpos =>
  have hpos := Nat.pos_of_ne_zero hpos
  split
  · next halign => exact refused .misaligned (.misaligned hpos halign)
  next halign =>
  have hwhole : IsWhole address length :=
    ⟨hpos, not_not.mp (not_or.mp halign).1, not_not.mp (not_or.mp halign).2⟩
  split
  · next hout => exact refused .outOfRange (.outside hwhole hout)
  simp only [leads_bind, leads_get]
  -- then the record is looked for, by where it starts, ...
  split
  · next hnone =>
    refine refused .noMatch (.unmatched hwhole fun j r hr howner hbase => ?_)
    exact not_of_findRecord? hnone hr howner (beq_iff_eq.mpr hbase)
  next i r hfound =>
  obtain ⟨hr, howner, hbase⟩ := of_findRecord? hfound
  have hbase : r.base = address := beq_iff_eq.mp hbase
  -- ... which must not be shorter than the range
  split
  · next hlt => exact refused .noMatch (.short hwhole hr howner hbase hlt)
  next hle =>
  have hstarts : k.Starts p address length i r :=
    ⟨hwhole, hr, howner, hbase, Nat.le_of_not_lt hle⟩
  rw [leads_bind, leads_liftM]
  refine ⟨fun rest hrest => ?_, overflows i r hstarts⟩
  simp only [leads_bind, leads_setRecord]
  rw [← hbase]
  -- it is cut short first; then its pages are taken away, and the machine is asked to flush
  refine (removed i r hstarts rest hrest).imp fun freed k' hQ => ?_
  simp only [leads_flushTlb, leads_note, leads_pure]
  rw [hbase]
  exact hQ

namespace Starts

variable {address length : Nat} {i : Fin mappingLimit} {rest : Option Mapping}

/-- What is left of the record. -/
theorem shortened (h : k.Starts p address length i r) (hk : k.Accounted pages)
    (hrest : r.dropFirst length = .ok rest) : r.Shortened length rest :=
  (hk.inWindow i r h.record_eq).shortened h.length_le h.length_mod hrest

/-- A removal from a record stays below the trap frame. -/
theorem le_userPages (h : k.Starts p address length i r) (hk : k.Accounted pages) :
    r.firstPage + length / pageSize ≤ userPages :=
  (Nat.add_le_add_left (Nat.div_le_div_right h.length_le) _).trans
    (hk.inWindow i r h.record_eq).le_userPages

/-- Cutting the record short is work on the process. -/
theorem reworked (h : k.Starts p address length i r) (hk : k.Accounted pages) (hlive : k.IsLive p)
    (hrest : r.dropFirst length = .ok rest) : k.Reworked pages p (k.withRecord i rest) := by
  have hshort := h.shortened hk hrest
  refine ⟨hk.setRecord i rest hshort.inWindow, hlive, .withRecord (fun r' hr' => ?_) fun r' hr' =>
    (hshort.owner_eq r' hr').trans h.owner_eq⟩
  obtain rfl := Option.some.inj (h.record_eq.symm.trans hr')
  exact h.owner_eq

end Starts

/-- What unmapping leaves of a record: all that lies beyond the range. -/
theorem Accounted.leads_unmap (h : k.Accounted pages) (hlive : k.IsLive p) (address length : Nat) :
    Leads k (unmap p address length) (fun result k' => k.Arranged pages p k' ∧
      (∀ n, k.Shows p n → k'.Shows p n ∨
        result = .ok () ∧ address ≤ n * pageSize ∧ n * pageSize < address + length) ∧
      (k.Retains p k' ∨ k.Flushes k'))
      (fun c => c ≠ .foreignPage ∧ ¬ k.OffsetsFit) := by
  -- refused requests change nothing, and a panic is one over the offset of what is left
  refine leads_unmap_of (fun _ _ => ⟨.refl h hlive, fun _ => .inl, .inl (.refl p k)⟩)
    (fun i r hstarts c hc => ⟨?_, fun hfit => ?_⟩) fun i r hstarts rest hrest => ?_
  · rintro rfl
    exact r.dropFirst_ne_foreignPage length hc
  · exact (hfit i r hstarts.record_eq).dropFirst_ne_error hstarts.length_le c hc
  have hr := hstarts.record_eq
  have hwindow := h.inWindow i r hr
  have hshort := hstarts.shortened h hrest
  have h₁ := hstarts.reworked h hlive hrest
  rw [hwindow.base_eq]
  refine ((h₁.accounted.leads_unmapRange h₁.isLive (hstarts.le_userPages h)).also
    ((onMemory_keeps_requests p _).leads _)).imp fun freed k₂ ⟨⟨h₂, hlookup, _⟩, hrequests⟩ => ?_
  -- the record that is cut short stands in its place, and each other record in its own
  have hrecord (j : Fin mappingLimit) : k₂.record j = if i = j then rest else k.record j := by
    rw [record_congr h₂.mappings_same, record_withRecord]
  have harranged : k.Arranged pages p k₂ := by
    refine (h₁.trans h₂.toReworked).arranged_of_shortened hr hstarts.owner_eq hwindow hshort
      hstarts.length_le h₂.mappings_same h₂.size_eq fun n => (hlookup n).trans ?_
    exact if_congr (hwindow.first_pages hstarts.length_mod n) rfl rfl
  have hasked : k.calls <:+ k₂.calls := suffix_of_requests_eq hrequests
  refine ⟨harranged.congr rfl rfl rfl, fun n ⟨j, r', hr', howner', hc⟩ => ?_,
    .inr (flushes_of_suffix hasked rfl rfl)⟩
  -- a page that its record showed before is removed with the first bytes, or still shown
  by_cases hij : i = j
  · subst hij
    obtain rfl := Option.some.inj (hr.symm.trans hr')
    rw [← hstarts.base_eq]
    by_cases hlow : n * pageSize < r.base + length
    · exact .inr ⟨rfl, (Mapping.covers_iff.mp hc).1, hlow⟩
    · obtain ⟨r'', hr'', hc''⟩ := (hshort.covers_iff _).mpr ⟨hc, Nat.le_of_not_lt hlow⟩
      exact .inl ⟨i, r'', (hrecord i).trans ((if_pos rfl).trans hr''),
        (hshort.owner_eq r'' hr'').trans howner', hc''⟩
  · exact .inl ⟨j, r', (hrecord j).trans ((if_neg hij).trans hr'), howner', hc⟩

/-! ### Sizes -/

/-- What new memory may be used for. -/
theorem isOpen_grown : ((UserMemory.basePermissions.union { writable := true }).validated).IsOpen :=
  ⟨rfl, rfl, rfl, rfl⟩

/-- Memory that shrinks loses the pages that its size no longer covers, and no other ones. -/
theorem Accounted.leads_shrink (h : k.Accounted pages) (hlive : k.IsLive p) {change : Int}
    (hchange : change < 0) {E : Panic → Prop} : Leads k (resize p change)
      (fun result k' => result = .ok (k.slotOf p).size ∧ ∃ k₁, k.Tabled pages p k₁ ∧
        k' = k₁.withSlot p.slot
          { k₁.slotOf p with size := (k.slotOf p).size - change.natAbs } ∧
        ∀ n, (k₁.slotOf p).table.lookup (n * pageSize) =
          if pagesIn ((k.slotOf p).size - change.natAbs) ≤ n ∧ n < pagesIn (k.slotOf p).size then none
          else (k.slotOf p).table.lookup (n * pageSize)) E := by
  have hsize : pagesIn (k.slotOf p).size ≤ userPages := h.size_le p.slot
  set new := (k.slotOf p).size - change.natAbs with hdef
  have hnew : new ≤ (k.slotOf p).size := Nat.sub_le _ _
  unfold resize
  simp only [leads_bind, leads_getSlot]
  rw [if_neg (Int.not_lt.mpr hchange.le), if_pos hchange, leads_bind]
  refine (h.leads_onMemory hlive (fun size m => size = new ∧ ∀ n,
      m.table.lookup (n * pageSize) = if pagesIn new ≤ n ∧ n < pagesIn (k.slotOf p).size then none
      else (k.slotOf p).table.lookup (n * pageSize))
    fun others hm _ _ => ?_).imp fun size k₁ ⟨h₁, hsize₁, hlookup⟩ => ?_
  · obtain ⟨m', hshrink, hkept, hlookup⟩ := hm.shrink hsize new
    rw [Nat.min_eq_right hnew] at hshrink
    exact ⟨_, m', hshrink, hkept, rfl, hlookup⟩
  · subst hsize₁
    simp only [leads_bind, leads_modifySlot, leads_pure]
    exact ⟨trivial, k₁, h₁, rfl, hlookup⟩

/-- Memory without the pages that a smaller size no longer covers is laid out as before. -/
theorem Tabled.arranged_of_shrunk (h : k.Tabled pages p k') (hk : k.Accounted pages) {new : Nat}
    (hnew : new ≤ (k.slotOf p).size)
    (hlookup : ∀ n, (k'.slotOf p).table.lookup (n * pageSize) =
      if pagesIn new ≤ n ∧ n < pagesIn (k.slotOf p).size then none
      else (k.slotOf p).table.lookup (n * pageSize)) :
    k.Arranged pages p (k'.withSlot p.slot { k'.slotOf p with size := new }) := by
  have hle := UserMemory.pagesIn_le_pagesIn hnew
  -- what is left is covered as before, since only pages beyond the new size have gone
  have hsettled := h.setSize (hle.trans (hk.size_le p.slot)) fun n hn hm => by
    unfold PageTable.isMapped at hm ⊢
    rw [hlookup] at hm
    split at hm
    · cases hm
    · next hout => exact .inl ⟨hm, fun hlt => by omega⟩
  refine h.arranged_setSize hsettled (fun hl => hnew.trans hl.size_le) (fun hl n hn => ?_)
    fun hl n hn => ?_
  · rw [hlookup, if_neg (by omega)]
    exact hl.heap n (hn.trans_le hle)
  · rw [hlookup, if_neg fun hin => ?_]
    have hlt := page_lt_windowBase hl.size_le hin.2
    exact absurd hn (Nat.not_le.mpr hlt)

/-- Memory with new pages for a greater size is laid out as before, and keeps its translations. -/
theorem Tabled.arranged_of_grown (h : k.Tabled pages p k') {target : Nat}
    (hle : (k.slotOf p).size ≤ target) (hbound : target ≤ windowBase)
    (huser : pagesIn target ≤ userPages)
    (hext : UserMemory.Extended (pagesIn (k.slotOf p).size) (pagesIn target)
      (UserMemory.basePermissions.union { writable := true }) (k.slotOf p).table
      (k'.slotOf p).table) :
    k.Arranged pages p (k'.withSlot p.slot { k'.slotOf p with size := target }) ∧
      k.Retains p (k'.withSlot p.slot { k'.slotOf p with size := target }) := by
  have hpages := UserMemory.pagesIn_le_pagesIn hle
  -- what is mapped after the growth was mapped before or is new, and is below the size in either
  -- case
  have hsettled := h.setSize huser fun n hn hm => by
    by_cases hn' : pagesIn (k.slotOf p).size ≤ n ∧ n < pagesIn target
    · exact .inr hn'.2
    · refine .inl ⟨?_, fun hlt => hlt.trans_le hpages⟩
      unfold PageTable.isMapped at hm ⊢
      rw [← hext.same n hn']
      exact hm
  refine ⟨h.arranged_setSize hsettled (fun _ => hbound) (fun hl n hn => ?_) fun _ n hn => ?_, ?_⟩
  -- the heap: pages that were there and pages that are new
  · by_cases hold : n < pagesIn (k.slotOf p).size
    · rw [hext.same n (by omega)]
      exact hl.heap n hold
    · obtain ⟨-, address, hnew⟩ := hext.fresh n (Nat.le_of_not_lt hold) hn
      exact ⟨_, _, hnew, isOpen_grown⟩
  -- the window is beyond the new size
  · refine hext.same n fun hin => ?_
    have hlt := page_lt_windowBase hbound hin.2
    exact absurd hn (Nat.not_le.mpr hlt)
  -- where pages are new there was no translation to lose
  · rw [retains_iff, slotOf_withSlot_self]
    intro n found hfound
    refine (hext.same n fun hin => ?_).trans hfound
    rw [(hext.fresh n hin.1 hin.2).1] at hfound
    cases hfound

/-- Memory that grows has all its new pages, or only what it had. -/
theorem Accounted.leads_grow (h : k.Accounted pages) (hlive : k.IsLive p) (target : Nat)
    {E : Panic → Prop} :
    Leads k (onMemory p fun m => m.grow (k.slotOf p).size target { writable := true })
      (fun result k' => k.Tabled pages p k' ∧
        (∀ e, result = .error e → ∀ n, (k'.slotOf p).table.lookup (n * pageSize) =
          (k.slotOf p).table.lookup (n * pageSize)) ∧
        ∀ size, result = .ok size → size = max (k.slotOf p).size target ∧
          pagesIn target ≤ userPages ∧ UserMemory.Extended (pagesIn (k.slotOf p).size)
            (max (pagesIn (k.slotOf p).size) (pagesIn target))
            (UserMemory.basePermissions.union { writable := true }) (k.slotOf p).table
            (k'.slotOf p).table) E := by
  refine h.leads_onMemory hlive (fun (result : Except MemoryError Nat) m =>
    (∀ e, result = .error e → ∀ n, m.table.lookup (n * pageSize) =
      (k.slotOf p).table.lookup (n * pageSize)) ∧
    ∀ size, result = .ok size → size = max (k.slotOf p).size target ∧
      pagesIn target ≤ userPages ∧ UserMemory.Extended (pagesIn (k.slotOf p).size)
        (max (pagesIn (k.slotOf p).size) (pagesIn target))
        (UserMemory.basePermissions.union { writable := true }) (k.slotOf p).table m.table)
    fun others hm hframe _ => ?_
  obtain ⟨result, m', hgrow, hkept, hok, herror⟩ :=
    hm.grow (h.size_le p.slot) hframe target { writable := true }
  exact ⟨result, m', hgrow, hkept, fun e he => (herror e he).1, hok⟩

/-- Memory that grows covers its new pages, memory that shrinks has lost the others. -/
theorem Accounted.leads_resize (h : k.Accounted pages) (hlive : k.IsLive p) (change : Int)
    {E : Panic → Prop} : Leads k (resize p change)
      (fun _ k' => k.Arranged pages p k' ∧ k'.mappings = k.mappings ∧
        (0 ≤ change → k.Retains p k')) E := by
  -- memory that shrinks, ...
  rcases lt_or_ge change 0 with hneg | hnonneg
  · refine (h.leads_shrink hlive hneg).imp ?_
    rintro _ _ ⟨-, k₁, h₁, rfl, hlookup⟩
    exact ⟨h₁.arranged_of_shrunk h (Nat.sub_le _ _) hlookup, h₁.mappings_same,
      fun hle => absurd hneg (Int.not_lt.mpr hle)⟩
  -- ... memory that stays as it is, or would be too large, ...
  unfold resize
  simp only [leads_bind, leads_getSlot]
  split
  swap
  · rw [if_neg (Int.not_lt.mpr hnonneg)]
    exact ⟨.refl h hlive, rfl, fun _ => .refl p k⟩
  split
  · exact ⟨.refl h hlive, rfl, fun _ => .refl p k⟩
  next htarget =>
  -- ... and memory that grows
  rw [leads_bind]
  refine (h.leads_grow hlive _).imp fun result k₁ ⟨h₁, hsame, hextended⟩ => ?_
  cases result with
  | error e =>
    have hgains : Gains (fun _ _ => False) (k.slotOf p).table (k₁.slotOf p).table := fun n _ =>
      .inl (hsame e rfl n)
    exact ⟨h₁.arranged hgains fun _ _ hin => hin.elim, h₁.mappings_same,
      fun _ => h₁.retains hgains⟩
  | ok size =>
    obtain ⟨hmax, huser, hext⟩ := hextended size rfl
    have hle : (k.slotOf p).size ≤ (k.slotOf p).size + change.toNat := Nat.le_add_right _ _
    rw [Nat.max_eq_right hle] at hmax
    rw [Nat.max_eq_right (UserMemory.pagesIn_le_pagesIn hle)] at hext
    subst hmax
    simp only [leads_bind, leads_modifySlot, leads_pure]
    obtain ⟨harranged, hretains⟩ :=
      h₁.arranged_of_grown hle (Nat.le_of_not_lt htarget) huser hext
    exact ⟨harranged, h₁.mappings_same, fun _ => hretains⟩

end Kernel

end FairKernel
