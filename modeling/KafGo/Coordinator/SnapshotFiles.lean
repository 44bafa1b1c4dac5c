import KafGo.Coordinator.ProducerSnapshot
import KafGo.Lib.Keyed
import KafGo.Lib.NumberedName

/-!
# The directory of the snapshots

A snapshot is found by its name, and a directory may hold anything else: other files, directories, names that are read
as the same number, files that are cut off or corrupted. `ProducerSnapshot` keeps only the snapshots of a directory,
by their bases; `load_snapshots` shows that this loses nothing that `LoadLatestProducerSnapshot` sees.

A character of a name stands for a byte.
-/

namespace KafGo.Coordinator
open Lib Storage

def producerSnapshotSuffix : String := ".producer.snapshot"

/-- `fmt.Sprintf("%020d%s", snapshotOffset, producerSnapshotSuffix)`. -/
def snapshotFileName (snapshotOffset : Int) : String := zeroPadded 20 snapshotOffset ++ producerSnapshotSuffix

example : snapshotFileName (-5) = "-0000000000000000005.producer.snapshot" := by decide +kernel

inductive Node where
  | directory
  | file (raw : Bytes)
  | unreadable

structure Directory where
  entries : List (String × Node)
  distinct : (entries.map Prod.fst).Nodup

/-- What `os.ReadDir` finds under a path. -/
inductive DirPath where
  | unset
  | missing
  | failing
  | listed (dir : Directory)

def snapshotBase (entry : String × Node) : Option Int :=
  match entry.2 with
  | .directory => none
  | .file _ | .unreadable =>
    if hasSuffix entry.1 producerSnapshotSuffix then parseInt 64 (trimSuffix entry.1 producerSnapshotSuffix) else none

namespace Directory

def listSnapshotFiles (dir : Directory) : List Int := (dir.entries.filterMap snapshotBase).insertionSort (· ≤ ·)

def readFile (dir : Directory) (name : String) : Option Bytes :=
  match dir.entries.find? fun entry => decide (entry.1 = name) with
  | some (_, .file raw) => some raw
  | some (_, .directory) => none
  | some (_, .unreadable) => none
  | none => none

def readSnapshot (dir : Directory) (base : Int) : Option Bytes := dir.readFile (snapshotFileName base)

end Directory

/-- `LoadLatestProducerSnapshot`, with `none` if the process dies. A directory that cannot be listed is an error. -/
def DirPath.loadLatestProducerSnapshot [Memory] (path : DirPath) (maxBase : Int) :
    Option (Except Unit (Int × Option (List ProducerSnapshotEntry))) :=
  match path with
  | .unset | .missing => some (.ok (0, none))
  | .failing => some (.error ())
  | .listed dir => (loadLatest dir.readSnapshot maxBase dir.listSnapshotFiles).map .ok

/-! ### Names -/

theorem snapshotBase_named {entry : String × Node} {base : Int} (low : -2 ^ 63 ≤ base) (high : base < 2 ^ 63)
    (named : entry.1 = snapshotFileName base) (file : entry.2 ≠ .directory) : snapshotBase entry = some base := by
  have read : (if hasSuffix entry.1 producerSnapshotSuffix then
      parseInt 64 (trimSuffix entry.1 producerSnapshotSuffix) else none) = some base := by
    rw [named, snapshotFileName, if_pos (hasSuffix_append _ _), trimSuffix_append]
    exact parseInt_zeroPadded 20 low high
  unfold snapshotBase
  split
  · rename_i found
    exact absurd found file
  · exact read
  · exact read

theorem decodeSnapshot_base [Memory] {raw : Bytes} {base : Int}
    (past : ∀ e, decodeSnapshot raw base = .error e → e = .outOfMemory) : -2 ^ 63 ≤ base ∧ base < 2 ^ 63 := by
  by_contra outside
  have differs : ∀ body, int64At body 6 ≠ base := by
    rintro body rfl
    exact outside (int64At_fits body 6)
  unfold decodeSnapshot at past
  dsimp only at past
  rw [if_pos (differs _)] at past
  -- all checks up to the base fail with an error of their own
  repeat' split at past
  all_goals cases past _ rfl

namespace Directory

variable {dir : Directory}

theorem readFile_iff {name : String} {raw : Bytes} :
    dir.readFile name = some raw ↔ (name, .file raw) ∈ dir.entries := by
  unfold readFile
  constructor
  · intro read
    split at read
    · rename_i name' raw' found
      obtain rfl := Option.some.inj read
      have same : name' = name := by simpa using List.find?_some found
      exact same ▸ List.mem_of_find?_eq_some found
    · cases read
    · cases read
    · cases read
  · intro member
    have found : dir.entries.find? (fun entry => decide (entry.1 = name)) = some (name, .file raw) :=
      lookupKey_of_mem dir.distinct member
    rw [found]

section Decoded

variable [Memory] {base : Int}

theorem decodeSnapshotFile_iff {outcome : Except SnapshotError (List ProducerSnapshotEntry)}
    (present : outcome ≠ .error .missing) : decodeSnapshotFile dir.readSnapshot base = outcome ↔
      ∃ raw, (snapshotFileName base, .file raw) ∈ dir.entries ∧ decodeSnapshot raw base = outcome := by
  unfold decodeSnapshotFile readSnapshot
  constructor
  · intro decoded
    cases read : dir.readFile (snapshotFileName base) with
    | none =>
      rw [read] at decoded
      exact absurd decoded.symm present
    | some raw =>
      rw [read] at decoded
      exact ⟨raw, readFile_iff.mp read, decoded⟩
  · rintro ⟨raw, member, decoded⟩
    rw [readFile_iff.mpr member]
    exact decoded

theorem listed_of_decoded {outcome : Except SnapshotError (List ProducerSnapshotEntry)}
    (decoded : decodeSnapshotFile dir.readSnapshot base = outcome) (past : ∀ e, outcome = .error e → e = .outOfMemory) :
    base ∈ dir.entries.filterMap snapshotBase := by
  have present : outcome ≠ .error .missing := fun missing => by cases past _ missing
  obtain ⟨raw, member, rfl⟩ := (decodeSnapshotFile_iff present).mp decoded
  obtain ⟨low, high⟩ := decodeSnapshot_base past
  exact List.mem_filterMap.mpr ⟨_, member, snapshotBase_named low high rfl (by simp)⟩

theorem listed_of_ok {entries : List ProducerSnapshotEntry}
    (decoded : decodeSnapshotFile dir.readSnapshot base = .ok entries) : base ∈ dir.entries.filterMap snapshotBase :=
  listed_of_decoded decoded fun _ => nofun

theorem loadLatest_latest {maxBase : Int} {result : Int × Option (List ProducerSnapshotEntry)}
    (returned : loadLatest dir.readSnapshot maxBase dir.listSnapshotFiles = some result) :
    IsLatest (fun base entries => decodeSnapshotFile dir.readSnapshot base = .ok entries) maxBase result :=
  (loadLatest_sorted returned).congr fun _ _ => ⟨And.right, fun decoded => ⟨listed_of_ok decoded, decoded⟩⟩

end Decoded

end Directory

/-- Whatever a directory holds: the snapshot with the largest base up to `maxBase` among those that decode under their
own name is returned, and nothing if there is none, exactly if no file above it asks for more memory than there is. -/
theorem loadLatestProducerSnapshot_iff [Memory] (dir : Directory) (maxBase : Int) :
    (∃ result, (DirPath.listed dir).loadLatestProducerSnapshot maxBase = some (.ok result) ∧
      IsLatest (fun base entries => decodeSnapshotFile dir.readSnapshot base = .ok entries) maxBase result) ↔
    ∀ base ≤ maxBase, decodeSnapshotFile dir.readSnapshot base = .error .outOfMemory →
      ∃ newer entries, base < newer ∧ newer ≤ maxBase ∧ decodeSnapshotFile dir.readSnapshot newer = .ok entries := by
  have ends := loadLatest_isSome dir.readSnapshot maxBase (dir.entries.filterMap snapshotBase)
  change (loadLatest dir.readSnapshot maxBase dir.listSnapshotFiles).isSome = true ↔ _ at ends
  constructor
  · rintro ⟨result, returned, _⟩ base low fatal
    obtain ⟨_, found, _⟩ := Option.map_eq_some_iff.mp returned
    have member := Directory.listed_of_decoded fatal fun e same => (Except.error.inj same).symm
    obtain ⟨newer, _, entries, rest⟩ := ends.mp (Option.isSome_iff_exists.mpr ⟨_, found⟩) base member low fatal
    exact ⟨newer, entries, rest⟩
  · intro shielded
    have returns := ends.mpr fun base _ low fatal => by
      obtain ⟨newer, entries, above, low', decoded⟩ := shielded base low fatal
      exact ⟨newer, Directory.listed_of_ok decoded, entries, above, low', decoded⟩
    obtain ⟨result, found⟩ := Option.isSome_iff_exists.mp returns
    exact ⟨result, congrArg (Option.map Except.ok) found, Directory.loadLatest_latest found⟩

/-- A valid snapshot at 3, and behind it one of 22 bytes with the right checksum that announces all entries it can. -/
def swollenDir : Directory where
  entries :=
    let body := beBytes 4 producerSnapshotMagic ++ beBytes 2 producerSnapshotVersion ++ beBytes 8 7 ++
      beBytes 4 (2 ^ 32 - 1)
    [(snapshotFileName 3, .file (snapshotBytes 3 [])),
      (snapshotFileName 7, .file (body ++ beBytes 4 (crc32c body).toNat))]
  distinct := by decide +kernel

/-- With 128 gigabytes the broker does not start, although there is a snapshot that it could use. -/
theorem swollen_snapshot_fatal :
    @DirPath.loadLatestProducerSnapshot (.limited (2 ^ 37)) (.listed swollenDir) 7 = none ∧
      (@decodeSnapshotFile (.limited (2 ^ 37)) swollenDir.readSnapshot 3).isOk = true ∧
      (@DirPath.loadLatestProducerSnapshot ample (.listed swollenDir) 7).map (·.map (·.1)) = some (.ok 3) := by
  refine ⟨Option.isNone_iff_eq_none.mp ?_, ?_, ?_⟩
  · decide +kernel
  · decide +kernel
  · decide +kernel

def snapshotOf (entry : String × Node) : Option SnapshotFile :=
  match entry.2 with
  | .directory | .unreadable => none
  | .file raw => (snapshotBase entry).bind fun base =>
      if entry.1 = snapshotFileName base then some ⟨base, raw⟩ else none

def Directory.snapshots (dir : Directory) : SnapshotDir := dir.entries.filterMap snapshotOf

theorem snapshotOf_some {entry : String × Node} {f : SnapshotFile} (found : snapshotOf entry = some f) :
    entry = (snapshotFileName f.base, .file f.raw) := by
  obtain ⟨name, node⟩ := entry
  unfold snapshotOf at found
  split at found
  · cases found
  · cases found
  · rename_i raw file
    obtain ⟨base, _, here⟩ := Option.bind_eq_some_iff.mp found
    split at here
    · rename_i named
      cases here
      exact Prod.ext named file
    · cases here

theorem snapshotOf_named {base : Int} (low : -2 ^ 63 ≤ base) (high : base < 2 ^ 63) (raw : Bytes) :
    snapshotOf (snapshotFileName base, .file raw) = some ⟨base, raw⟩ := by
  have read : snapshotBase (snapshotFileName base, .file raw) = some base := snapshotBase_named low high rfl (by simp)
  unfold snapshotOf
  dsimp only
  rw [read, Option.bind_some, if_pos rfl]

theorem decodeSnapshotFile_snapshots {dir : Directory} {base : Int} {entries : List ProducerSnapshotEntry} :
    decodeSnapshotFile (readSnapshot dir.snapshots) base = .ok entries ↔
      decodeSnapshotFile dir.readSnapshot base = .ok entries := by
  have present : (.ok entries : Except SnapshotError (List ProducerSnapshotEntry)) ≠ .error .missing := nofun
  rw [Directory.decodeSnapshotFile_iff present]
  unfold decodeSnapshotFile readSnapshot
  constructor
  · intro decoded
    cases found : dir.snapshots.find? (fun f => decide (f.base = base)) with
    | none =>
      rw [found] at decoded
      cases decoded
    | some f =>
      rw [found] at decoded
      obtain rfl : f.base = base := by simpa using List.find?_some found
      obtain ⟨entry, member, named⟩ := List.mem_filterMap.mp (List.mem_of_find?_eq_some found)
      exact ⟨f.raw, snapshotOf_some named ▸ member, decoded⟩
  · rintro ⟨raw, member, decoded⟩
    obtain ⟨low, high⟩ := decodeSnapshot_base fun e failed => by cases decoded.symm.trans failed
    have inside : ⟨base, raw⟩ ∈ dir.snapshots := List.mem_filterMap.mpr ⟨_, member, snapshotOf_named low high raw⟩
    cases found : dir.snapshots.find? (fun f => decide (f.base = base)) with
    | none =>
      have absent := List.find?_eq_none.mp found _ inside
      simp at absent
    | some f =>
      obtain rfl : f.base = base := by simpa using List.find?_some found
      obtain ⟨entry, member', named⟩ := List.mem_filterMap.mp (List.mem_of_find?_eq_some found)
      rw [snapshotOf_some named] at member'
      -- two files of one name are the same
      have same := List.inj_on_of_nodup_map dir.distinct member member' rfl
      rw [Node.file.inj (Prod.mk.inj same).2] at decoded
      exact decoded

theorem load_snapshots (dir : Directory) (maxBase : Int) :
    loadLatest dir.readSnapshot maxBase dir.listSnapshotFiles =
      some (loadLatestProducerSnapshot dir.snapshots maxBase) := by
  obtain ⟨result, found⟩ := Option.isSome_iff_exists.mp
    ((loadLatest_isSome dir.readSnapshot maxBase _).mpr (shielded_ample _ _ (dir.entries.filterMap snapshotBase)))
  rw [show result = _ from (Directory.loadLatest_latest found).unique
    ((loadLatest_isLatest dir.snapshots maxBase).congr fun _ _ => decodeSnapshotFile_snapshots)] at found
  exact found

end KafGo.Coordinator
