import GeexOS.Loader.Strings
import Mathlib.Data.Finset.Card
import Mathlib.Data.List.Dedup
import Mathlib.Data.List.Pairwise

/-!
# Loading the libraries of an executable

Loading a file and linking it call each other.  A library is loaded once if it
is found in the list of images by its name, and what the list holds is the part
of the path behind the last slash, cut to 31 characters.
-/

namespace GeexOS.Libraries

open GeexOS.Strings

/-- An entry of `loader_loadedImages`: its name, and the path it was loaded from. -/
structure Image where
  name : CString
  path : CString
  deriving DecidableEq, Repr

/-- The files, whose names are found in any case, by the DT_NEEDED strings they
hold, and whether loading and relocating one succeeds. -/
structure Volume where
  needed : CString → Option (List CString)
  loads : CString → List Image → Bool
  relocates : CString → List Image → Bool
  zero_notMem : ∀ path names, needed path = some names → ∀ name ∈ names, 0 ∉ name

inductive Status where
  | loaded
  | failed
  | running
  deriving DecidableEq, Repr

/-- A DT_NEEDED string, and the images when it is looked up. -/
structure Request where
  libname : CString
  images : List Image
  deriving DecidableEq, Repr

/-- How a call ends, the images it leaves, the requests it makes and the lists of
images it goes through. -/
structure Trace where
  status : Status
  images : List Image
  requests : List Request
  states : List (List Image)

/-- `hd(0,0)/system/`. -/
def librarySearchPath : CString :=
  [0x68, 0x64, 0x28, 0x30, 0x2C, 0x30, 0x29, 0x2F, 0x73, 0x79, 0x73, 0x74, 0x65, 0x6D, 0x2F]

/-- The path of a library. -/
def fullPath (libname : CString) : CString :=
  fsConcatPath (librarySearchPath.take 255) libname 256

def loaderIsImageLoaded (name : CString) (images : List Image) : Bool :=
  images.any fun image => stricmp name image.name = 0

/-- The loop of `elf_linkElf32File` over the DT_NEEDED strings. -/
def linkLoop (loadFile : CString → List Image → Trace) : List CString → List Image → Trace
  | [], images => ⟨.loaded, images, [], []⟩
  | libname :: rest, images =>
      if loaderIsImageLoaded libname images then
        let linked := linkLoop loadFile rest images
        { linked with requests := ⟨libname, images⟩ :: linked.requests }
      else
        let file := loadFile libname images
        match file.status with
        | .loaded =>
            let linked := linkLoop loadFile rest file.images
            ⟨linked.status, linked.images,
              ⟨libname, images⟩ :: file.requests ++ linked.requests, file.states ++ linked.states⟩
        | _ => { file with requests := ⟨libname, images⟩ :: file.requests }

/-- `list_del` of the image in front of `behind` others. -/
def listDel (images : List Image) (behind : ℕ) : List Image :=
  images.eraseIdx (images.length - 1 - behind)

/-- `elf_loadFile`, with as many nested calls as there is fuel for.  What it does to memory is
`ImageLoading.elfLoadFile`; here loading and relocating succeed or fail as the volume has it. -/
def elfLoadFile (volume : Volume) : (fuel : ℕ) → CString → List Image → Trace
  | 0, _, images => ⟨.running, images, [], []⟩
  | fuel + 1, filename, images =>
      match volume.needed (filename.map tolower) with
      | none => ⟨.failed, images, [], []⟩
      | some needed =>
          let added := ⟨(fsGetFilename filename).take 31, filename⟩ :: images
          if volume.loads filename added then
            let linked := linkLoop
              (fun libname images => elfLoadFile volume fuel (fullPath libname) images) needed added
            let deleted := listDel linked.images images.length
            match linked.status with
            | .loaded =>
                if volume.relocates filename linked.images then
                  { linked with states := added :: linked.states }
                else ⟨.failed, deleted, linked.requests, added :: linked.states ++ [deleted]⟩
            | .failed => ⟨.failed, deleted, linked.requests, added :: linked.states ++ [deleted]⟩
            | .running => { linked with states := added :: linked.states }
          else ⟨.failed, images, [], [added, images]⟩

/-! ## The condition -/

/-- No two images were loaded from the same file name. -/
def Distinct (images : List Image) : Prop :=
  images.Pairwise fun left right => left.path.map tolower ≠ right.path.map tolower

instance (images : List Image) : Decidable (Distinct images) :=
  inferInstanceAs (Decidable (images.Pairwise _))

/-- The name is stored as it is. -/
def Storable (name : CString) : Prop := name.length ≤ 31 ∧ slash ∉ name

/-- The image was loaded from the file of the library. -/
def Image.Of (image : Image) (libname : CString) : Prop :=
  image.path.map tolower = (fullPath libname).map tolower

/-- A library that was loaded before is asked for by a name that is stored as it is. -/
def Request.Ok (request : Request) : Prop :=
  (∃ image ∈ request.images, image.Of request.libname) → Storable request.libname

/-- What holds for the images: they are from different files among the paths. -/
structure ImagesOk (volume : Volume) (paths : Finset CString) (images : List Image) : Prop where
  distinct : Distinct images
  known : ∀ image ∈ images, image.path.map tolower ∈ paths
  stored : ∀ image ∈ images, image.name = (fsGetFilename image.path).take 31
  zero_notMem : ∀ image ∈ images, 0 ∉ image.path
  opened : ∀ image ∈ images, volume.needed (image.path.map tolower) ≠ none

/-- The files need libraries among the paths only. -/
def ClosedUnder (volume : Volume) (paths : Finset CString) : Prop :=
  ∀ path names, volume.needed path = some names → ∀ name ∈ names,
    (fullPath name).map tolower ∈ paths

variable {volume : Volume} {paths : Finset CString} {images : List Image} {image : Image}
variable {libname filename : CString} {names : List CString} {fuel : ℕ} {trace : Trace}

/-! ## Looking up a name -/

theorem fullPath_of_storable (hname : Storable libname) :
    fullPath libname = librarySearchPath.dropLast ++ slash :: libname := by
  have hshort : libname.take 240 = libname := List.take_of_length_le (by have := hname.1; omega)
  change librarySearchPath ++ libname.take 240 = _
  rw [hshort]
  rfl

theorem zero_notMem_fullPath (hname : 0 ∉ libname) : 0 ∉ fullPath libname := by
  intro hmem
  change 0 ∈ librarySearchPath ++ libname.take 240 at hmem
  rcases List.mem_append.mp hmem with hsearch | hlib
  · exact absurd hsearch (by decide)
  · exact hname (List.mem_of_mem_take hlib)

theorem ImagesOk.zero_notMem_name (himages : ImagesOk volume paths images)
    (hmem : image ∈ images) : 0 ∉ image.name := by
  rw [himages.stored image hmem]
  intro hzero
  exact himages.zero_notMem image hmem (fsGetFilename_subset _ (List.mem_of_mem_take hzero))

theorem isImageLoaded_iff (himages : ImagesOk volume paths images) (hname : 0 ∉ libname) :
    loaderIsImageLoaded libname images = true ↔
      ∃ image ∈ images, libname.map tolower = image.name.map tolower := by
  rw [loaderIsImageLoaded, List.any_eq_true]
  refine exists_congr fun image => and_congr_right fun hmem => ?_
  rw [decide_eq_true_iff, stricmp_eq_zero_iff hname (himages.zero_notMem_name hmem)]

/-- A name that is not stored as it is, is never found. -/
theorem not_loaded_of_not_storable (himages : ImagesOk volume paths images) (hname : 0 ∉ libname)
    (hlong : ¬ Storable libname) : loaderIsImageLoaded libname images = false := by
  rw [Bool.eq_false_iff, ne_eq, isImageLoaded_iff himages hname]
  rintro ⟨image, hmem, hsame⟩
  have hstored := himages.stored image hmem
  refine hlong ⟨?_, fun hslash => ?_⟩
  · have hlength := congrArg List.length hsame
    rw [List.length_map, List.length_map, hstored, List.length_take] at hlength
    omega
  · rw [← map_tolower_slash, hsame, map_tolower_slash, hstored] at hslash
    exact slash_notMem_fsGetFilename _ (List.mem_of_mem_take hslash)

/-- A name that is stored as it is, is found. -/
theorem loaded_of_storable (himages : ImagesOk volume paths images) (hname : 0 ∉ libname)
    (hstorable : Storable libname) (hmem : image ∈ images) (hof : image.Of libname) :
    loaderIsImageLoaded libname images = true := by
  rw [isImageLoaded_iff himages hname]
  have hsame := fsGetFilename_map_tolower hof
  rw [fullPath_of_storable hstorable, fsGetFilename_append hstorable.2] at hsame
  have hlength := congrArg List.length hsame
  rw [List.length_map, List.length_map] at hlength
  have hshort : (fsGetFilename image.path).take 31 = fsGetFilename image.path :=
    List.take_of_length_le (hlength.trans_le hstorable.1)
  exact ⟨image, hmem, by rw [himages.stored image hmem, hshort, hsame]⟩

/-- There are no more images than paths. -/
theorem ImagesOk.length_le (himages : ImagesOk volume paths images) :
    images.length ≤ paths.card := by
  have hnodup : (images.map fun image => image.path.map tolower).Nodup :=
    List.pairwise_map.mpr himages.distinct
  have hsubset : (images.map fun image => image.path.map tolower).toFinset ⊆ paths := by
    intro path hmem
    obtain ⟨image, hmem', rfl⟩ := List.mem_map.mp (List.mem_toFinset.mp hmem)
    exact himages.known image hmem'
  have hcard := Finset.card_le_card hsubset
  rwa [List.toFinset_card_of_nodup hnodup, List.length_map] at hcard

theorem ImagesOk.sublist {fewer : List Image} (himages : ImagesOk volume paths images)
    (hsublist : fewer.Sublist images) : ImagesOk volume paths fewer where
  distinct := himages.distinct.sublist hsublist
  known := fun image hmem => himages.known image (hsublist.subset hmem)
  stored := fun image hmem => himages.stored image (hsublist.subset hmem)
  zero_notMem := fun image hmem => himages.zero_notMem image (hsublist.subset hmem)
  opened := fun image hmem => himages.opened image (hsublist.subset hmem)

/-! ## One file and the libraries it needs -/

/-- The lists stay distinct exactly if the requests meet the condition; then the
call comes to an end. -/
structure Correct (volume : Volume) (paths : Finset CString) (images : List Image)
    (trace : Trace) : Prop where
  distinct_iff : (∀ state ∈ trace.states, Distinct state) ↔ ∀ request ∈ trace.requests, request.Ok
  ends : (∀ state ∈ trace.states, Distinct state) →
    trace.status ≠ .running ∧ ImagesOk volume paths trace.images ∧
      images.length ≤ trace.images.length

/-- A library is loaded correctly if it was not loaded before; otherwise two
images are from one file. -/
structure LoadsLibraries (volume : Volume) (paths : Finset CString) (fuel : ℕ)
    (loadFile : CString → List Image → Trace) : Prop where
  correct : ∀ libname images, ImagesOk volume paths images → 0 ∉ libname →
    (fullPath libname).map tolower ∈ paths → paths.card < images.length + fuel →
    (∀ image ∈ images, ¬ image.Of libname) → Correct volume paths images (loadFile libname images)
  twice : ∀ libname images, ImagesOk volume paths images → paths.card < images.length + fuel →
    (∃ image ∈ images, image.Of libname) →
    ¬ ∀ state ∈ (loadFile libname images).states, Distinct state

theorem linkLoop_correct {loadFile : CString → List Image → Trace}
    (hload : LoadsLibraries volume paths fuel loadFile)
    (hnames : ∀ name ∈ names, 0 ∉ name ∧ (fullPath name).map tolower ∈ paths)
    (himages : ImagesOk volume paths images) (hfuel : paths.card < images.length + fuel) :
    Correct volume paths images (linkLoop loadFile names images) := by
  induction names generalizing images with
  | nil => exact ⟨by simp [linkLoop], fun _ => ⟨by simp [linkLoop], himages, le_rfl⟩⟩
  | cons libname rest ih =>
      obtain ⟨⟨hzero, hpath⟩, hrest⟩ := List.forall_mem_cons.mp hnames
      rw [linkLoop]
      by_cases hfound : loaderIsImageLoaded libname images = true
      · have hok : Request.Ok ⟨libname, images⟩ := fun _ => by
          by_contra hlong
          rw [not_loaded_of_not_storable himages hzero hlong] at hfound
          cases hfound
        have hlinked := ih hrest himages hfuel
        rw [if_pos hfound]
        refine ⟨?_, hlinked.ends⟩
        rw [List.forall_mem_cons, and_iff_right hok]
        exact hlinked.distinct_iff
      · rw [if_neg hfound]
        by_cases hbefore : ∃ image ∈ images, image.Of libname
        · -- the library is loaded a second time
          have htwice := hload.twice libname images himages hfuel hbefore
          have hnot : ¬ Request.Ok ⟨libname, images⟩ := fun hok => by
            obtain ⟨image, hmem, hof⟩ := hbefore
            exact hfound (loaded_of_storable himages hzero (hok ⟨image, hmem, hof⟩) hmem hof)
          dsimp only
          split
          · refine ⟨iff_of_false (fun hall => htwice ?_) fun hall => hnot ?_, fun hall =>
              absurd ?_ htwice⟩
            · exact fun state hmem => hall state (List.mem_append_left _ hmem)
            · exact hall _ List.mem_cons_self
            · exact fun state hmem => hall state (List.mem_append_left _ hmem)
          · exact ⟨iff_of_false htwice fun hall => hnot (hall _ List.mem_cons_self), fun hall =>
              absurd hall htwice⟩
        · have hok : Request.Ok ⟨libname, images⟩ := fun hexists => absurd hexists hbefore
          have hfile := hload.correct libname images himages hzero hpath hfuel
            fun image hmem hof => hbefore ⟨image, hmem, hof⟩
          dsimp only
          split
          · refine ⟨?_, fun hall => ?_⟩
            · rw [List.cons_append, List.forall_mem_cons, and_iff_right hok,
                List.forall_mem_append, List.forall_mem_append, hfile.distinct_iff]
              refine and_congr_right fun hrequests => ?_
              obtain ⟨_, hafter, hlength⟩ := hfile.ends (hfile.distinct_iff.mpr hrequests)
              exact (ih hrest hafter (by omega)).distinct_iff
            · obtain ⟨hfirst, hsecond⟩ := List.forall_mem_append.mp hall
              obtain ⟨_, hafter, hlength⟩ := hfile.ends hfirst
              obtain ⟨hstatus, hlast, hmore⟩ := (ih hrest hafter (by omega)).ends hsecond
              exact ⟨hstatus, hlast, hlength.trans hmore⟩
          · refine ⟨?_, hfile.ends⟩
            rw [List.forall_mem_cons, and_iff_right hok]
            exact hfile.distinct_iff

/-- Whatever comes of it, a file that can be opened is in the list for a while. -/
theorem added_mem_states (hneeded : volume.needed (filename.map tolower) = some names) :
    ⟨(fsGetFilename filename).take 31, filename⟩ :: images ∈
      (elfLoadFile volume (fuel + 1) filename images).states := by
  rw [elfLoadFile, hneeded]
  dsimp only
  split
  · split
    · split <;> exact List.mem_cons_self
    · exact List.mem_cons_self
    · exact List.mem_cons_self
  · exact List.mem_cons_self

theorem loadsLibraries_of_correct
    (hcorrect : ∀ filename images, ImagesOk volume paths images → 0 ∉ filename →
      filename.map tolower ∈ paths → paths.card < images.length + fuel →
      (∀ image ∈ images, image.path.map tolower ≠ filename.map tolower) →
      Correct volume paths images (elfLoadFile volume fuel filename images)) :
    LoadsLibraries volume paths fuel fun libname images =>
      elfLoadFile volume fuel (fullPath libname) images where
  correct := fun libname images himages hzero hpath hfuel hfresh =>
    hcorrect _ _ himages (zero_notMem_fullPath hzero) hpath hfuel hfresh
  twice := by
    rintro libname images himages hfuel ⟨image, hmem, hof⟩ hall
    have hlength := himages.length_le
    obtain ⟨fewer, rfl⟩ := Nat.exists_eq_add_of_le' (show 1 ≤ fuel by omega)
    have hopened := himages.opened image hmem
    rw [hof] at hopened
    obtain ⟨names, hneeded⟩ := Option.ne_none_iff_exists'.mp hopened
    have hdistinct := hall _ (added_mem_states hneeded)
    exact List.rel_of_pairwise_cons hdistinct hmem hof.symm

/-- The file stays in the list with the libraries it needs. -/
theorem Correct.kept {added : List Image} (hlinked : Correct volume paths added trace)
    (hadded : ImagesOk volume paths added) (hlength : images.length ≤ added.length) :
    Correct volume paths images { trace with states := added :: trace.states } := by
  refine ⟨?_, fun hall => ?_⟩
  · rw [List.forall_mem_cons, and_iff_right hadded.distinct]
    exact hlinked.distinct_iff
  · obtain ⟨hstatus, hafter, hmore⟩ := hlinked.ends (List.forall_mem_cons.mp hall).2
    exact ⟨hstatus, hafter, hlength.trans hmore⟩

/-- The file is taken out of the list, the libraries stay. -/
theorem Correct.deleted {added : List Image} (hlinked : Correct volume paths added trace)
    (hadded : ImagesOk volume paths added) (hlength : added.length = images.length + 1) :
    Correct volume paths images ⟨.failed, listDel trace.images images.length, trace.requests,
      added :: trace.states ++ [listDel trace.images images.length]⟩ := by
  have hsublist : (listDel trace.images images.length).Sublist trace.images :=
    List.eraseIdx_sublist _ _
  constructor
  · rw [List.cons_append, List.forall_mem_cons, and_iff_right hadded.distinct,
      List.forall_mem_append, List.forall_mem_singleton, hlinked.distinct_iff, and_iff_left_iff_imp]
    intro hrequests
    obtain ⟨_, hafter, _⟩ := hlinked.ends (hlinked.distinct_iff.mpr hrequests)
    exact (hafter.sublist hsublist).distinct
  · intro hall
    rw [List.cons_append, List.forall_mem_cons, List.forall_mem_append] at hall
    obtain ⟨_, hafter, hmore⟩ := hlinked.ends hall.2.1
    refine ⟨by simp, hafter.sublist hsublist, ?_⟩
    have herased : trace.images.length - 1 ≤ (listDel trace.images images.length).length :=
      List.le_length_eraseIdx _ _
    change images.length ≤ (listDel trace.images images.length).length
    omega

/-- A file that was not loaded before is loaded with all the libraries it needs. -/
theorem elfLoadFile_correct (hclosed : ClosedUnder volume paths)
    (himages : ImagesOk volume paths images) (hzero : 0 ∉ filename)
    (hpath : filename.map tolower ∈ paths) (hfuel : paths.card < images.length + fuel)
    (hfresh : ∀ image ∈ images, image.path.map tolower ≠ filename.map tolower) :
    Correct volume paths images (elfLoadFile volume fuel filename images) := by
  induction fuel generalizing filename images with
  | zero =>
      have hlength := himages.length_le
      omega
  | succ fuel ih =>
      have hload := loadsLibraries_of_correct fun _ _ => ih
      rw [elfLoadFile]
      cases hneeded : volume.needed (filename.map tolower) with
      | none => exact ⟨by simp, fun _ => ⟨by simp, himages, le_rfl⟩⟩
      | some names =>
          dsimp only
          have hadded : ImagesOk volume paths
              (⟨(fsGetFilename filename).take 31, filename⟩ :: images) := by
            refine ⟨?_, ?_, ?_, ?_, ?_⟩
            · exact List.pairwise_cons.mpr
                ⟨fun image hmem hsame => hfresh image hmem hsame.symm, himages.distinct⟩
            · exact List.forall_mem_cons.mpr ⟨hpath, himages.known⟩
            · exact List.forall_mem_cons.mpr ⟨rfl, himages.stored⟩
            · exact List.forall_mem_cons.mpr ⟨hzero, himages.zero_notMem⟩
            · exact List.forall_mem_cons.mpr ⟨by simp [hneeded], himages.opened⟩
          have hnames : ∀ name ∈ names, 0 ∉ name ∧ (fullPath name).map tolower ∈ paths :=
            fun name hmem =>
              ⟨volume.zero_notMem _ _ hneeded name hmem, hclosed _ _ hneeded name hmem⟩
          have hlinked := linkLoop_correct hload hnames hadded
            (by rw [List.length_cons]; omega)
          split
          · split
            · split
              · exact hlinked.kept hadded (by simp)
              · exact hlinked.deleted hadded (by simp)
            · exact hlinked.deleted hadded (by simp)
            · exact hlinked.kept hadded (by simp)
          · refine ⟨iff_of_true ?_ (by simp), fun _ => ⟨by simp, himages, le_rfl⟩⟩
            rw [List.forall_mem_cons, List.forall_mem_singleton]
            exact ⟨hadded.distinct, himages.distinct⟩

/-- Loading an executable ends with every library loaded once exactly if a library
that was loaded before is always asked for by a name that is stored as it is. -/
theorem elfLoadFile_once_iff {executable : CString} (hclosed : ClosedUnder volume paths)
    (hzero : 0 ∉ executable) (hpath : executable.map tolower ∈ paths)
    (hfuel : paths.card < fuel) :
    ((elfLoadFile volume fuel executable []).status ≠ .running ∧
        ∀ state ∈ (elfLoadFile volume fuel executable []).states, Distinct state) ↔
      ∀ request ∈ (elfLoadFile volume fuel executable []).requests, request.Ok := by
  have hnone : ImagesOk volume paths [] := ⟨by simp [Distinct], by simp, by simp, by simp, by simp⟩
  have hcorrect := elfLoadFile_correct hclosed hnone hzero hpath
    (by rw [List.length_nil, Nat.zero_add]; exact hfuel) (by simp)
  rw [← hcorrect.distinct_iff]
  exact ⟨And.right, fun hall => ⟨(hcorrect.ends hall).1, hall⟩⟩

/-- `hd(0,0)/system/gxoskrnl.elf`. -/
def kernelPath : CString :=
  librarySearchPath ++ [0x67, 0x78, 0x6F, 0x73, 0x6B, 0x72, 0x6E, 0x6C, 0x2E, 0x65, 0x6C, 0x66]

/-- The executable needs a library, and the library needs itself. -/
def cycle (libname : CString) (hzero : 0 ∉ libname) : Volume where
  needed := fun path =>
    if path = kernelPath ∨ path = (fullPath libname).map tolower then some [libname] else none
  loads := fun _ _ => true
  relocates := fun _ _ => true
  zero_notMem := by
    intro path names hneeded name hmem
    rw [Option.ite_none_right_eq_some, Option.some.injEq] at hneeded
    rw [← hneeded.2, List.mem_singleton] at hmem
    rwa [hmem]

theorem elfLoadFile_once_iff_cycle :
    ((elfLoadFile (cycle [0x61] (by decide)) 3 kernelPath []).status ≠ .running ∧
        ∀ state ∈ (elfLoadFile (cycle [0x61] (by decide)) 3 kernelPath []).states,
          Distinct state) ↔
      ∀ request ∈ (elfLoadFile (cycle [0x61] (by decide)) 3 kernelPath []).requests,
        request.Ok := by
  refine @elfLoadFile_once_iff _ {kernelPath, fullPath [0x61]} 3 kernelPath ?_ (by decide)
    (by decide) (by decide)
  intro path names hneeded name hmem
  change (if _ then _ else _) = _ at hneeded
  rw [Option.ite_none_right_eq_some, Option.some.injEq] at hneeded
  rw [← hneeded.2, List.mem_singleton] at hmem
  rw [hmem]
  decide

/-- A name of 32 characters is stored without the last one, so the library is not
found when it asks for itself. -/
theorem longName_loaded_twice :
    ¬ ((elfLoadFile (cycle (List.replicate 32 0x61) (by decide)) 3 kernelPath []).status ≠
          .running ∧
        ∀ state ∈ (elfLoadFile (cycle (List.replicate 32 0x61) (by decide)) 3
          kernelPath []).states, Distinct state) := by
  decide +kernel

/-- However many nested calls there may be, they are not enough for a library that
asks for itself by a name that is too long. -/
theorem cycle_running (hzero : 0 ∉ libname) (hlong : 31 < libname.length)
    (himages : ∀ image ∈ images, image.name.length ≤ 31 ∧ 0 ∉ image.name) :
    (elfLoadFile (cycle libname hzero) fuel (fullPath libname) images).status = .running := by
  induction fuel generalizing images with
  | zero => rfl
  | succ fuel ih =>
      have hneeded : (cycle libname hzero).needed ((fullPath libname).map tolower) =
          some [libname] := if_pos (Or.inr rfl)
      have hadded : ∀ image ∈ (⟨(fsGetFilename (fullPath libname)).take 31, fullPath libname⟩ ::
          images : List Image), image.name.length ≤ 31 ∧ 0 ∉ image.name := by
        refine List.forall_mem_cons.mpr ⟨⟨List.length_take_le _ _, fun hmem => ?_⟩, himages⟩
        exact zero_notMem_fullPath hzero (fsGetFilename_subset _ (List.mem_of_mem_take hmem))
      have hfound : loaderIsImageLoaded libname
          (⟨(fsGetFilename (fullPath libname)).take 31, fullPath libname⟩ :: images) = false := by
        rw [loaderIsImageLoaded, List.any_eq_false]
        intro image hmem
        obtain ⟨hshort, hname⟩ := hadded image hmem
        rw [decide_eq_true_iff, stricmp_eq_zero_iff hzero hname]
        intro hsame
        have hlength := congrArg List.length hsame
        rw [List.length_map, List.length_map] at hlength
        omega
      have hnested := ih hadded
      rw [elfLoadFile, hneeded]
      simp only [linkLoop, hfound, Bool.false_eq_true, if_false, hnested]
      rfl

end GeexOS.Libraries
