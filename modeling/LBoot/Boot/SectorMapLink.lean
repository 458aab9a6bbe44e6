/-
  LBoot.Boot.SectorMapLink

  `_round2` on an image (tools/sector_mapper/src/main.c).

  The sector of each cluster of the map file is written where the chunk before
  it has its link, the first one to the boot sector.  As the clusters are
  distinct sectors, none of these words is written twice, and behind the call
  they lead from one chunk to the next (`linked_round2Loop`).

  A second call reads the image the first one has left.  It does the same
  unless a word written lies in what is read of the FAT or of a directory
  (`mapClusters_again`).
-/

import LBoot.Boot.SectorMapWrite
import LBoot.Lib.Chain
import LBoot.Tools.FatReads

namespace LBoot.Boot

open LBoot.Lib

/-! ## Images -/

/-- A disk image; behind its end there is nothing. -/
@[ext] structure Image where
  bytes : Int → UInt8
  size : Nat
  behind : ∀ x : Int, size ≤ x → bytes x = 0

/-- `pread`: bytes up to the end of the image. -/
def Image.pread (img : Image) : Tools.Pread := fun n off =>
  if off < 0 then [] else loadAt img.bytes off (min n (img.size - off.toNat))

/-- `pwrite`; an image grows if it must. -/
def Image.pwrite (img : Image) (off : Nat) (bs : List UInt8) : Image where
  bytes := storeAt img.bytes off bs
  size := max img.size (off + bs.length)
  behind x hx := by
    rw [storeAt_of_outside (Or.inr (by omega))]
    exact img.behind x (by omega)

/-! ## The tool -/

/-- The clusters of the file at a path, with what the map depends on: `_round2`
    up to its loop. -/
def mapClusters (pread : Tools.Pread) (fuel : Nat) (dents : Int → UInt8) (path : List UInt8) :
    Option (FatHandle × List Int) :=
  (Tools.fatOpen pread).bind fun hand =>
    let bootsector := Storage.fatBootsector (storeAt (fun _ => 0) 0 (pread 512 0))
    if hand.clusterSize ≠ 512 then none
    else
      match Tools.fatFindFile pread hand fuel dents hand.rootDir path with
      | (.ok mapFile, _) =>
          (Tools.fatGetFileClusters pread hand mapFile).map fun clusters =>
            (⟨hand.clusterSize, bootsector.sectorsPerCluster⟩, clusters)
      | _ => none

/-- The loop of `_round2`. -/
def linkLoop (fat : FatHandle) : Nat → Image → List Nat → Image
  | _, img, [] => img
  | preAddr, img, c :: cs =>
      linkLoop fat (c + nextChunkOffset) (img.pwrite preAddr (toLe 2 (fat.sector c))) cs

/-- `_round2`, if every `pwrite` succeeds. -/
def round2Image (fuel : Nat) (dents : Int → UInt8) (img : Image) (path : List UInt8) :
    Option Image :=
  (mapClusters img.pread fuel dents path).map fun r =>
    linkLoop r.1 stage2MapSector img (r.2.map toU32)

/-- What `_round2` reads behind `fat_open`. -/
def mapReads (pread : Tools.Pread) (fuel : Nat) (dents : Int → UInt8) (path : List UInt8) :
    List (Nat × Int) :=
  (Tools.fatOpen pread).elim [] fun hand =>
    Tools.fatFindFileReads pread hand fuel dents hand.rootDir path ++
      match Tools.fatFindFile pread hand fuel dents hand.rootDir path with
      | (.ok mapFile, _) => Tools.fatGetFileClustersReads pread hand mapFile
      | _ => []

/-! ## Links -/

/-- Where the words that are written lie: in the boot sector, and in all chunks
    but the last one. -/
def linkAddrs (a : Nat) : List Nat → List Nat
  | [] => []
  | m :: ms => a :: linkAddrs (512 * m + nextChunkOffset) ms

/-- Each of these words holds the sector it leads to. -/
def Linked (img : Int → UInt8) : Nat → List Nat → Prop
  | _, [] => True
  | a, m :: ms => loadAt img a 2 = toLe 2 m ∧ Linked img (512 * m + nextChunkOffset) ms

/-- The chunk behind one, as the boot sector follows them. -/
def nextChunk (img : Int → UInt8) (_ : Unit) (sector : Nat) : Nat × Unit :=
  (sectorWord img sector nextChunkOffset, ())

section Links

variable {fat : FatHandle} {img : Int → UInt8}

/-- The word at `a` is not one of a chunk in these sectors. -/
def LinkApart (a : Nat) (ms : List Nat) : Prop :=
  ∀ m ∈ ms, a + 2 ≤ 512 * m + nextChunkOffset ∨ 512 * m + nextChunkOffset + 2 ≤ a

theorem linkApart_of_not_mem {m : Nat} {ms : List Nat} (h : m ∉ ms) :
    LinkApart (512 * m + nextChunkOffset) ms := by
  intro m' hm'
  have hne : m' ≠ m := by
    rintro rfl
    exact h hm'
  have hoffset : nextChunkOffset = 508 := rfl
  omega

theorem linkApart_boot {ms : List Nat} (h : ∀ m ∈ ms, 0 < m) : LinkApart stage2MapSector ms := by
  intro m hm
  have hpos := h m hm
  have hboot : stage2MapSector = 506 := rfl
  have hoffset : nextChunkOffset = 508 := rfl
  omega

/-- Behind the loop the words lead from one chunk to the next. -/
theorem linked_round2Loop (hfat : fat = ⟨512, 1⟩) {ms : List Nat} (hrange : ∀ m ∈ ms, m < 2 ^ 16)
    (hnodup : ms.Nodup) {a : Nat} (ha : LinkApart a ms) :
    Linked (round2Loop fat a img (ms.map (512 * ·))) a ms := by
  induction ms generalizing a img with
  | nil => trivial
  | cons m ms ih =>
      obtain ⟨hm, hms⟩ := List.nodup_cons.mp hnodup
      refine ⟨round2Loop_first hfat (hrange m List.mem_cons_self) ha img, ?_⟩
      rw [List.map_cons, round2Loop]
      exact ih (fun m' hm' => hrange m' (List.mem_cons_of_mem m hm')) hms (linkApart_of_not_mem hm)

/-- The loop does nothing where the words do so already. -/
theorem round2Loop_of_linked (hfat : fat = ⟨512, 1⟩) {ms : List Nat} (hrange : ∀ m ∈ ms, m < 2 ^ 16)
    {a : Nat} (hlinked : Linked img a ms) : round2Loop fat a img (ms.map (512 * ·)) = img := by
  induction ms generalizing a with
  | nil => rfl
  | cons m ms ih =>
      obtain ⟨hword, hrest⟩ := hlinked
      have hm := hrange m List.mem_cons_self
      have hsector : fat.sector (512 * m) = m := by
        rw [hfat, FatHandle.sector]
        dsimp only
        omega
      have hsame : storeAt img a (toLe 2 m) = img := by
        rw [loadAt_eq_iff (length_toLe 2 m)] at hword
        apply storeAt_same
        intro i hi
        have hcell := hword i (by rwa [length_toLe] at hi)
        rw [List.getElem?_eq_getElem hi] at hcell
        exact (Option.some.inj hcell).symm
      rw [List.map_cons, round2Loop, hsector, hsame]
      exact ih (fun m' hm' => hrange m' (List.mem_cons_of_mem m hm')) hrest

/-- Only these words are written. -/
theorem round2Loop_frame {x : Int} {ms : List Nat} {a : Nat}
    (hx : ∀ b ∈ linkAddrs a ms, x < b ∨ (b + 2 : Nat) ≤ x) :
    round2Loop fat a img (ms.map (512 * ·)) x = img x := by
  induction ms generalizing a img with
  | nil => rfl
  | cons m ms ih =>
      obtain ⟨hfirst, hrest⟩ := List.forall_mem_cons.mp hx
      rw [List.map_cons, round2Loop, ih hrest]
      apply storeAt_of_outside
      rw [length_toLe]
      omega

theorem mem_linkAddrs {a b : Nat} {ms : List Nat} (hb : b ∈ linkAddrs a ms) :
    b = a ∨ ∃ m ∈ ms.dropLast, b = 512 * m + nextChunkOffset := by
  induction ms generalizing a with
  | nil => exact absurd hb List.not_mem_nil
  | cons m ms ih =>
      rcases List.mem_cons.mp hb with rfl | hb
      · exact Or.inl rfl
      · right
        cases ms with
        | nil => exact absurd hb List.not_mem_nil
        | cons m' ms =>
            rw [List.dropLast_cons_cons]
            rcases ih hb with rfl | ⟨k, hk, rfl⟩
            · exact ⟨m, List.mem_cons_self, rfl⟩
            · exact ⟨k, List.mem_cons_of_mem m hk, rfl⟩

/-- Following the words from the first chunk on visits all chunks, and ends
    at the last one. -/
theorem follow_of_linked {a m : Nat} {ms : List Nat} (hrange : ∀ m' ∈ m :: ms, 0 < m' ∧ m' < 2 ^ 16)
    (hlinked : Linked img a (m :: ms))
    (hlast : ∀ m' ∈ (m :: ms).getLast?, sectorWord img m' nextChunkOffset = 0) :
    leNat (loadAt img a 2) = m ∧
      ∀ k, (m :: ms).length < k → follow (nextChunk img) k () m = m :: ms := by
  induction ms generalizing a m with
  | nil =>
      obtain ⟨hword, -⟩ := hlinked
      have hzero : (nextChunk img () m).1 = 0 := hlast m rfl
      refine ⟨?_, fun k hk => ?_⟩
      · rw [hword, leNat_toLe_of_lt (hrange m List.mem_cons_self).2]
      · obtain ⟨k, rfl⟩ : ∃ k', k = k' + 1 := ⟨k - 1, by omega⟩
        rw [follow_succ, if_pos hzero]
  | cons m' ms ih =>
      obtain ⟨hword, hrest⟩ := hlinked
      have hrange' : ∀ n ∈ m' :: ms, 0 < n ∧ n < 2 ^ 16 := fun n hn =>
        hrange n (List.mem_cons_of_mem m hn)
      obtain ⟨hnext, hfollow⟩ := ih hrange' hrest (by rwa [List.getLast?_cons_cons] at hlast)
      have hne : (nextChunk img () m).1 = m' := hnext
      refine ⟨?_, fun k hk => ?_⟩
      · rw [hword, leNat_toLe_of_lt (hrange m List.mem_cons_self).2]
      · rw [List.length_cons] at hk
        obtain ⟨k, rfl⟩ : ∃ k', k = k' + 1 := ⟨k - 1, by omega⟩
        rw [follow_succ, hne, if_neg (hrange' m' List.mem_cons_self).1.ne']
        rw [show (nextChunk img () m).2 = () from rfl, hfollow k (by omega)]

end Links

/-! ## The image behind the call -/

/-- The map is linked: the boot sector leads to its first chunk, every chunk to
    the next one and the last one nowhere, and nothing else is changed. -/
structure LinksMap (img img' : Image) (ms : List Nat) : Prop where
  visits : ∀ k, ms.length < k →
    follow (nextChunk img'.bytes) k () (sectorWord img'.bytes 0 stage2MapSector) = ms
  count : (linkAddrs stage2MapSector ms).length = ms.length
  size : img'.size = img.size
  frame : ∀ x : Int, (∀ b ∈ linkAddrs stage2MapSector ms, x < b ∨ (b + 2 : Nat) ≤ x) →
    img'.bytes x = img.bytes x

/-- No word written lies in what has been read behind `fat_open`. -/
def ReadsApart (reads : List (Nat × Int)) (ms : List Nat) : Prop :=
  ∀ r ∈ reads, ∀ b ∈ linkAddrs stage2MapSector ms, r.2 + r.1 ≤ b ∨ (b + 2 : Nat) ≤ r.2

section Round2

variable {fat : FatHandle} {img img' : Image} {ms : List Nat}

theorem linkLoop_bytes (a : Nat) (cs : List Nat) :
    (linkLoop fat a img cs).bytes = round2Loop fat a img.bytes cs := by
  induction cs generalizing a img with
  | nil => rfl
  | cons c cs ih =>
      rw [linkLoop, ih]
      rfl

/-- An image with all the chunks in it does not grow. -/
theorem linkLoop_size {a : Nat} (h : ∀ b ∈ linkAddrs a ms, b + 2 ≤ img.size) :
    (linkLoop fat a img (ms.map (512 * ·))).size = img.size := by
  induction ms generalizing a img with
  | nil => rfl
  | cons m ms ih =>
      obtain ⟨hfirst, hrest⟩ := List.forall_mem_cons.mp h
      have hsize : (img.pwrite a (toLe 2 (fat.sector (512 * m)))).size = img.size := by
        show max img.size (a + (toLe 2 (fat.sector (512 * m))).length) = img.size
        rw [length_toLe]
        omega
      rw [List.map_cons, linkLoop, ih (by rwa [hsize]), hsize]

theorem length_linkAddrs (a : Nat) (ms : List Nat) : (linkAddrs a ms).length = ms.length := by
  induction ms generalizing a with
  | nil => rfl
  | cons m ms ih => rw [linkAddrs, List.length_cons, List.length_cons, ih]

/-- The words lie in the image, behind the fields `fat_open` uses. -/
theorem linkAddrs_bounds {size : Nat} (hms : ∀ m ∈ ms, 0 < m ∧ 512 * m + 512 ≤ size) :
    ∀ b ∈ linkAddrs stage2MapSector ms, stage2MapSector ≤ b ∧ b + 2 ≤ size := by
  intro b hb
  have hboot : stage2MapSector = 506 := rfl
  have hoffset : nextChunkOffset = 508 := rfl
  cases ms with
  | nil => exact absurd hb List.not_mem_nil
  | cons m ms =>
      obtain ⟨hpos, hsize⟩ := hms m List.mem_cons_self
      rcases mem_linkAddrs hb with rfl | ⟨m', hm', rfl⟩
      · omega
      · obtain ⟨hpos', hsize'⟩ := hms m' (List.mem_of_mem_dropLast hm')
        omega

/-- The word of the last chunk is not written. -/
theorem sectorWord_last {img : Int → UInt8} (hrange : ∀ m ∈ ms, 0 < m ∧ m < 2 ^ 16) (hnodup : ms.Nodup)
    {m : Nat} (hm : m ∈ ms.getLast?) :
    sectorWord (round2Loop fat stage2MapSector img (ms.map (512 * ·))) m nextChunkOffset
      = sectorWord img m nextChunkOffset := by
  have hsplit : ms.dropLast ++ [m] = ms := List.dropLast_append_getLast? m hm
  have hnot : m ∉ ms.dropLast := by
    rw [← hsplit, List.nodup_append] at hnodup
    intro hmem
    exact hnodup.2.2 m hmem m (List.mem_singleton_self m) rfl
  have hboot : stage2MapSector = 506 := rfl
  have hoffset : nextChunkOffset = 508 := rfl
  have hpos := (hrange m (List.mem_of_getLast? hm)).1
  rw [sectorWord, sectorWord]
  congr 1
  apply loadAt_congr
  intro x hlo hhi
  apply round2Loop_frame
  intro b hb
  rcases mem_linkAddrs hb with rfl | ⟨k, hk, rfl⟩
  · omega
  · have hne : k ≠ m := by
      rintro rfl
      exact hnot hk
    omega

/-- What the loop leaves behind. -/
theorem linkLoop_links (hms : ∀ m ∈ ms, 0 < m ∧ m < 2 ^ 16 ∧ 512 * m + 512 ≤ img.size)
    (hne : ms ≠ []) (hnodup : ms.Nodup)
    (hlast : ∀ m ∈ ms, sectorWord img.bytes m nextChunkOffset = 0) :
    LinksMap img (linkLoop ⟨512, 1⟩ stage2MapSector img (ms.map (512 * ·))) ms := by
  have hbounds := linkAddrs_bounds fun m hm => ⟨(hms m hm).1, (hms m hm).2.2⟩
  have hrange : ∀ m ∈ ms, 0 < m ∧ m < 2 ^ 16 := fun m hm => ⟨(hms m hm).1, (hms m hm).2.1⟩
  have hlinked : Linked (round2Loop ⟨512, 1⟩ stage2MapSector img.bytes (ms.map (512 * ·)))
      stage2MapSector ms :=
    linked_round2Loop rfl (fun m hm => (hrange m hm).2) hnodup
      (linkApart_boot fun m hm => (hrange m hm).1)
  refine ⟨?_, length_linkAddrs _ _, linkLoop_size fun b hb => (hbounds b hb).2, fun x hx => ?_⟩
  · rw [linkLoop_bytes]
    cases ms with
    | nil => exact absurd rfl hne
    | cons m ms =>
        -- the word of the last chunk is not written
        obtain ⟨hfirst, hfollow⟩ := follow_of_linked hrange hlinked fun m' hm' =>
          (sectorWord_last hrange hnodup hm').trans (hlast m' (List.mem_of_getLast? hm'))
        intro k hk
        rw [sectorWord, Nat.mul_zero, Nat.zero_add, hfirst]
        exact hfollow k hk
  · rw [linkLoop_bytes]
    exact round2Loop_frame hx

/-- The boot sector as `fat_open` reads it. -/
theorem pread_boot (h : 512 ≤ img.size) : img.pread 512 0 = loadAt img.bytes 0 512 := by
  rw [Image.pread, if_neg (by decide), Int.toNat_zero, Nat.sub_zero, Nat.min_eq_left h]

/-- A read that none of the words lies in. -/
theorem pread_apart (hlinks : LinksMap img img' ms) {n : Nat} {off : Int}
    (h : ∀ b ∈ linkAddrs stage2MapSector ms, off + n ≤ b ∨ (b + 2 : Nat) ≤ off) :
    img'.pread n off = img.pread n off := by
  rw [Image.pread, Image.pread, hlinks.size]
  split
  · rfl
  · apply loadAt_congr
    intro x hlo hhi
    apply hlinks.frame
    intro b hb
    have happart := h b hb
    omega

/-- The fields of the boot sector are in front of the words. -/
theorem fatBootsector_links (hlinks : LinksMap img img' ms)
    (hbounds : ∀ b ∈ linkAddrs stage2MapSector ms, stage2MapSector ≤ b) :
    Storage.fatBootsector img'.bytes = Storage.fatBootsector img.bytes := by
  have hfield (a w : Nat) (h : a + w ≤ stage2MapSector) :
      memField img'.bytes a w = memField img.bytes a w := by
    rw [memField, memField]
    congr 1
    apply loadAt_congr
    intro x hlo hhi
    apply hlinks.frame
    intro b hb
    have hb := hbounds b hb
    omega
  have hboot : stage2MapSector = 506 := rfl
  simp only [Storage.fatBootsector, hfield 11 2 (by omega), hfield 13 1 (by omega),
    hfield 14 2 (by omega), hfield 16 1 (by omega), hfield 17 2 (by omega), hfield 19 2 (by omega),
    hfield 22 2 (by omega)]

/-- A second call finds the same clusters. -/
theorem mapClusters_again (hlinks : LinksMap img img' ms) (hsize : 512 ≤ img.size)
    (hbounds : ∀ b ∈ linkAddrs stage2MapSector ms, stage2MapSector ≤ b) {fuel : Nat}
    {dents : Int → UInt8} {path : List UInt8}
    (hapart : ReadsApart (mapReads img.pread fuel dents path) ms) :
    mapClusters img'.pread fuel dents path = mapClusters img.pread fuel dents path := by
  have hsize' : 512 ≤ img'.size := by rwa [hlinks.size]
  have hboot := fatBootsector_links hlinks hbounds
  -- both open with the same handle
  have hopen (i : Image) (h : 512 ≤ i.size) :
      Tools.fatOpen i.pread = some (Tools.fatHandle (Storage.fatBootsector i.bytes)) := by
    rw [Tools.fatOpen, pread_boot h, length_loadAt, if_neg (not_not.mpr rfl),
      Storage.fatBootsector_read]
  rw [mapReads, hopen img hsize, Option.elim_some] at hapart
  rw [mapClusters, mapClusters, hopen img hsize, hopen img' hsize', Option.bind_some,
    Option.bind_some, hboot, pread_boot hsize, pread_boot hsize', Storage.fatBootsector_read,
    Storage.fatBootsector_read, hboot]
  generalize Tools.fatHandle (Storage.fatBootsector img.bytes) = hand at hapart
  -- what is read away from the links is read the same again
  have hsame : ∀ reads : List (Nat × Int), ReadsApart reads ms →
      Tools.SameReads img.pread img'.pread reads :=
    fun reads h r hr => pread_apart hlinks (h r hr)
  have hfind := Tools.fatFindFile_congr fuel dents hand.rootDir path
    (hsame _ fun r hr => hapart r (List.mem_append_left _ hr))
  dsimp only
  rw [hfind]
  split
  · rfl
  · generalize Tools.fatFindFile img.pread hand fuel dents hand.rootDir path = found at hapart
    obtain ⟨r, dents'⟩ := found
    cases r with
    | ok mapFile =>
        dsimp only at hapart ⊢
        rw [Tools.fatGetFileClusters_congr
          (hsame _ fun r hr => hapart r (List.mem_append_right _ hr))]
    | panic => rfl
    | stuck => rfl
    | fail => rfl

/-- The clusters of the map are no zeros. -/
theorem mapClusters_ne_zero {pread : Tools.Pread} {fuel : Nat} {dents : Int → UInt8}
    {path : List UInt8} {cs : List Int} (h : mapClusters pread fuel dents path = some (fat, cs)) :
    ∀ c ∈ cs, c ≠ 0 := by
  rw [mapClusters, Option.bind_eq_some_iff] at h
  obtain ⟨hand, -, h⟩ := h
  dsimp only at h
  split at h
  · exact absurd h (by simp)
  · generalize Tools.fatFindFile pread hand fuel dents hand.rootDir path = r at h
    obtain ⟨r, dents'⟩ := r
    cases r with
    | ok mapFile =>
        obtain ⟨cs', hget, heq⟩ := Option.map_eq_some_iff.mp h
        obtain rfl : cs' = cs := (Prod.mk.inj heq).2
        exact Tools.mem_fileClustersFrom hget
    | panic => exact absurd h (by simp)
    | stuck => exact absurd h (by simp)
    | fail => exact absurd h (by simp)

/-- Clusters that are sectors, as the array holds them. -/
theorem map_toU32_sectors {cs : List Int} (h : ∀ c ∈ cs, ∃ x < 2 ^ 16, c = (512 * x : Nat)) :
    cs.map toU32 = (cs.map fun c => c.toNat / 512).map (512 * ·) := by
  rw [List.map_map]
  apply List.map_congr_left
  intro c hc
  obtain ⟨x, hx, rfl⟩ := h c hc
  show toU32 (512 * x : Nat) = 512 * ((512 * x : Nat) / 512)
  rw [toU32_of_nonneg (by omega) (by omega), Int.toNat_natCast,
    Nat.mul_div_cancel_left x (by decide)]

end Round2

/-- For every image with clusters of one sector and every map file with
    distinct clusters, each a sector with a number of 16 bits and a chunk
    without a link: behind `_round2` the map is linked and nothing else is
    changed.  A second call does nothing more if no link lies in what the
    first one has read of the FAT and of directories. -/
theorem round2Image_links (fuel : Nat) (dents : Int → UInt8) (img img' : Image) (path : List UInt8)
    (cs : List Int) (hlook : mapClusters img.pread fuel dents path = some (⟨512, 1⟩, cs))
    (hne : cs ≠ []) (hnodup : cs.Nodup) (hsectors : ∀ c ∈ cs, ∃ x < 2 ^ 16, c = (512 * x : Nat))
    (hchunks : ∀ c ∈ cs, c + 512 ≤ img.size ∧ leNat (loadAt img.bytes (c + nextChunkOffset) 2) = 0)
    (hrun : round2Image fuel dents img path = some img') :
    LinksMap img img' (cs.map fun c => c.toNat / 512) ∧
      (ReadsApart (mapReads img.pread fuel dents path) (cs.map fun c => c.toNat / 512) →
        round2Image fuel dents img' path = some img') := by
  have hnonzero := mapClusters_ne_zero hlook
  -- the clusters are these sectors
  have hcs := map_toU32_sectors hsectors
  have hms : ∀ m ∈ cs.map fun c => c.toNat / 512, 0 < m ∧ m < 2 ^ 16 ∧ 512 * m + 512 ≤ img.size := by
    intro m hm
    obtain ⟨c, hc, rfl⟩ := List.mem_map.mp hm
    have hzero := hnonzero c hc
    have hsize := (hchunks c hc).1
    obtain ⟨x, hx, rfl⟩ := hsectors c hc
    rw [Int.toNat_natCast, Nat.mul_div_cancel_left x (by decide)]
    omega
  have hmsnodup : (cs.map fun c => c.toNat / 512).Nodup := by
    apply hnodup.map_on
    intro c hc d hd heq
    obtain ⟨x, -, rfl⟩ := hsectors c hc
    obtain ⟨y, -, rfl⟩ := hsectors d hd
    omega
  have hlast : ∀ m ∈ cs.map fun c => c.toNat / 512, sectorWord img.bytes m nextChunkOffset = 0 := by
    intro m hm
    obtain ⟨c, hc, rfl⟩ := List.mem_map.mp hm
    have hword := (hchunks c hc).2
    obtain ⟨x, -, rfl⟩ := hsectors c hc
    rw [sectorWord, Int.toNat_natCast, Nat.mul_div_cancel_left x (by decide)]
    exact hword
  rw [round2Image, hlook, Option.map_some, hcs] at hrun
  have himg : linkLoop ⟨512, 1⟩ stage2MapSector img ((cs.map fun c => c.toNat / 512).map (512 * ·))
      = img' := Option.some.inj hrun
  have hlinks := linkLoop_links hms (by rwa [ne_eq, List.map_eq_nil_iff]) hmsnodup hlast
  rw [himg] at hlinks
  refine ⟨hlinks, fun hapart => ?_⟩
  have hbounds := linkAddrs_bounds fun m hm => ⟨(hms m hm).1, (hms m hm).2.2⟩
  obtain ⟨c, hc⟩ := List.exists_mem_of_ne_nil _ hne
  have hsize : 512 ≤ img.size := by
    have hchunk := (hms _ (List.mem_map_of_mem (f := fun c => c.toNat / 512) hc)).2.2
    omega
  rw [round2Image, mapClusters_again hlinks hsize (fun b hb => (hbounds b hb).1) hapart, hlook,
    Option.map_some, hcs, Option.some.injEq]
  have hfixed : round2Loop ⟨512, 1⟩ stage2MapSector img'.bytes
      ((cs.map fun c => c.toNat / 512).map (512 * ·)) = img'.bytes := by
    apply round2Loop_of_linked rfl fun m hm => (hms m hm).2.1
    rw [← himg, linkLoop_bytes]
    exact linked_round2Loop rfl (fun m hm => (hms m hm).2.1) hmsnodup
      (linkApart_boot fun m hm => (hms m hm).1)
  apply Image.ext
  · rw [linkLoop_bytes, hfixed]
  · exact linkLoop_size fun b hb => by
      rw [hlinks.size]
      exact (hbounds b hb).2

/-- An image with these bytes, and zeros everywhere else. -/
def sparseImage (size : Nat) (cells : List (Int × UInt8)) : Image where
  bytes x := if x < size then (cells.lookup x).getD 0 else 0
  size := size
  behind x hx := if_neg (by omega)

/-- The fields of the boot sector of an image with one copy of a FAT of one
    sector and 16 entries in its root directory, behind so many sectors. -/
def smallBoot (reserved : List UInt8) : List (Int × UInt8) :=
  [(12, 2), (13, 1), (14, reserved.getD 0 0), (15, reserved.getD 1 0), (16, 1), (17, 16), (22, 1)]

/-- The entry of a file `M` at an address: its first cluster is 2. -/
def smallDirent (a : Int) (size : List UInt8) : List (Int × UInt8) :=
  [(a, 0x4d), (a + 1, 0x20), (a + 2, 0x20), (a + 3, 0x20), (a + 4, 0x20), (a + 5, 0x20),
    (a + 6, 0x20), (a + 7, 0x20), (a + 8, 0x20), (a + 9, 0x20), (a + 10, 0x20), (a + 26, 2),
    (a + 28, size.getD 0 0), (a + 29, size.getD 1 0)]

/-- A map of two chunks behind the root directory. -/
def twoChunks : Image :=
  sparseImage 2560 (smallBoot [1, 0] ++ [(515, 3)] ++ smallDirent 1024 [0, 4])

theorem mapClusters_twoChunks :
    mapClusters twoChunks.pread 64 (fun _ => 0) [0x4d] = some (⟨512, 1⟩, [1536, 2048]) := by
  decide +kernel

/-- The chunks are in the sectors 3 and 4. -/
theorem round2Image_links_two :
    LinksMap twoChunks (linkLoop ⟨512, 1⟩ stage2MapSector twoChunks [1536, 2048]) [3, 4] ∧
      round2Image 64 (fun _ => 0) (linkLoop ⟨512, 1⟩ stage2MapSector twoChunks [1536, 2048]) [0x4d]
        = some (linkLoop ⟨512, 1⟩ stage2MapSector twoChunks [1536, 2048]) := by
  have hlinks := round2Image_links 64 (fun _ => 0) twoChunks
    (linkLoop ⟨512, 1⟩ stage2MapSector twoChunks [1536, 2048]) [0x4d] [1536, 2048]
    mapClusters_twoChunks (by simp) (by simp)
    (by
      intro c hc
      rcases List.mem_pair.mp hc with rfl | rfl
      · exact ⟨3, by simp⟩
      · exact ⟨4, by simp⟩)
    (by decide +kernel)
    (by
      rw [round2Image, mapClusters_twoChunks]
      rfl)
  refine ⟨hlinks.1, hlinks.2 ?_⟩
  unfold ReadsApart
  decide +kernel

/-- A map of one chunk in sector 65537, behind 65535 reserved sectors. -/
def wideChunk : Image :=
  sparseImage 33555456 (smallBoot [0xff, 0xff] ++ smallDirent 33554432 [0, 2])

/-- A map of three chunks, of which the second one lies in the FAT, around the
    entry of its own cluster. -/
def chunkInFat : Image :=
  sparseImage 524288 (smallBoot [1, 0] ++ [(515, 0xfe), (516, 0x03), (2046, 1)] ++
    smallDirent 1024 [0, 6])

/-- The unconditional statement fails: a sector number is cut down to 16 bits,
    and where a link is written into the FAT, a second call goes along another
    chain. -/
theorem round2Image_links_wide_overlap :
    (mapClusters wideChunk.pread 64 (fun _ => 0) [0x4d] = some (⟨512, 1⟩, [33554944]) ∧
      (∀ c ∈ [33554944], (c + 512 : Int) ≤ wideChunk.size ∧
        leNat (loadAt wideChunk.bytes (c + nextChunkOffset) 2) = 0) ∧
      ¬ LinksMap wideChunk (linkLoop ⟨512, 1⟩ stage2MapSector wideChunk [33554944]) [65537]) ∧
    mapClusters chunkInFat.pread 64 (fun _ => 0) [0x4d]
      = some (⟨512, 1⟩, [1536, 523776, 131584]) ∧
    (∀ c ∈ [1536, 523776, 131584], (c + 512 : Int) ≤ chunkInFat.size ∧
      leNat (loadAt chunkInFat.bytes (c + nextChunkOffset) 2) = 0) ∧
    round2Image 64 (fun _ => 0)
        (linkLoop ⟨512, 1⟩ stage2MapSector chunkInFat [1536, 523776, 131584]) [0x4d]
      ≠ some (linkLoop ⟨512, 1⟩ stage2MapSector chunkInFat [1536, 523776, 131584]) := by
  refine ⟨⟨by decide +kernel, by decide +kernel, fun h => ?_⟩, by decide +kernel, by decide +kernel,
    fun h => ?_⟩
  · exact absurd (h.visits 2 (by simp)) (by decide +kernel)
  · -- the last link of the second call is another one
    have hword : leNat (loadAt (linkLoop ⟨512, 1⟩ stage2MapSector chunkInFat
        [1536, 523776, 131584]).bytes 524284 2) = 257 := by decide +kernel
    have hword' : (round2Image 64 (fun _ => 0)
        (linkLoop ⟨512, 1⟩ stage2MapSector chunkInFat [1536, 523776, 131584]) [0x4d]).map
          (fun img => leNat (loadAt img.bytes 524284 2)) = some 260 := by decide +kernel
    rw [h, Option.map_some, hword] at hword'
    exact absurd hword' (by simp)

end LBoot.Boot
