import SynOSStudio.BuildTools.RecipeFingerprint
import SynOSStudio.ByteStreams.Lines
import SynOSStudio.ByteStreams.Utf8

/-!
# The checksum of a bundle folder

What `_sha256_tree` hashes: for each file in the order of the paths, its path and its bytes, each
with a NUL after it. A folder with one file and no NUL-enclosed path in it is the only folder with
its stream; any other folder shares its stream with another one.
-/

namespace BuildTools

open ByteStreams

/-- A relative path to a file. -/
structure IsFilePath (path : RelativePath) : Prop where
  nonempty : path ≠ []
  names : ∀ name ∈ path, ValidName name ∧ '\x00' ∉ name.toList

abbrev BundleFile := RelativePath × List UInt8

/-- The files of a folder in the order of their paths. -/
structure BundleFolder where
  files : List BundleFile
  paths : ∀ file ∈ files, IsFilePath file.1
  ordered : files.Pairwise fun file file' => file.1 < file'.1 ∧ ¬ file.1 <+: file'.1

namespace BundleFolder

theorem ext_files {folder folder' : BundleFolder} (h : folder.files = folder'.files) :
    folder = folder' := by
  cases folder
  cases folder'
  cases h
  rfl

end BundleFolder

/-- What one file feeds to the hash. -/
def filePiece (file : BundleFile) : List UInt8 :=
  encode (pathText file.1) ++ 0 :: (file.2 ++ [0])

def treeStream (folder : BundleFolder) : List UInt8 :=
  folder.files.flatMap filePiece

def sha256Tree (sha256 : List UInt8 → String) (folder : BundleFolder) : String :=
  sha256 (treeStream folder)

/-- The bytes are a content, a path and another content, with a NUL on each side of the path. -/
def HidesPath (content : List UInt8) (path : RelativePath) : Prop :=
  ∃ before after, content = before ++ 0 :: (encode (pathText path) ++ 0 :: after)

/-- At most one file, in which no path that could follow its own is hidden. -/
structure BundleFolder.Unmistakable (folder : BundleFolder) : Prop where
  single : folder.files.length ≤ 1
  plain : ∀ file ∈ folder.files, ∀ path, IsFilePath path → file.1 < path → ¬ file.1 <+: path →
    ¬ HidesPath file.2 path

section Paths

variable {path path' : RelativePath}

theorem encode_injective : Function.Injective encode := by
  intro s t h
  rw [encode, encode, toUTF8_toList, toUTF8_toList] at h
  exact String.toList_injective (utf8Bytes_injective h)

/-- The text of a path is its names with a slash between two of them. -/
theorem toList_pathText (path : RelativePath) :
    (pathText path).toList = List.intercalate ['/'] (path.map String.toList) := by
  simp [pathText, String.toList_intercalate]

theorem nul_notMem_encode (h : IsFilePath path) : 0 ∉ encode (pathText path) := by
  intro hmem
  rw [encode, toUTF8_toList] at hmem
  have hchar := mem_of_mem_utf8Bytes hmem (by decide)
  rw [toList_pathText] at hchar
  rcases mem_intercalate hchar with hslash | ⟨_, hname, hnul⟩
  · revert hslash
    decide
  · obtain ⟨name, hmem, rfl⟩ := List.mem_map.mp hname
    exact (h.names name hmem).2 hnul

theorem pathText_injective (h : IsFilePath path) (h' : IsFilePath path')
    (heq : pathText path = pathText path') : path = path' := by
  have hsplit {path : RelativePath} (h : IsFilePath path) :
      (pathText path).toList.splitOn '/' = path.map String.toList := by
    rw [toList_pathText, List.splitOn_intercalate]
    · intro _ hname
      obtain ⟨name, hmem, rfl⟩ := List.mem_map.mp hname
      exact (h.names name hmem).1.2.2.2
    · simpa using h.nonempty
  have hnames : path.map String.toList = path'.map String.toList := by
    rw [← hsplit h, ← hsplit h', heq]
  exact List.map_injective_iff.mpr (fun _ _ => String.toList_injective) hnames

end Paths

section Streams

variable {folder other : BundleFolder} {file : BundleFile} {files : List BundleFile}

theorem treeStream_eq (h : folder.files = files) : treeStream folder = files.flatMap filePiece :=
  congrArg (List.flatMap filePiece) h

/-- The last two files can be read as one, whose content hides the path of the other. -/
theorem filePiece_merged (path path' : RelativePath) (content content' : List UInt8) :
    filePiece (path, content ++ 0 :: (encode (pathText path') ++ 0 :: content')) =
      filePiece (path, content) ++ filePiece (path', content') := by
  simp [filePiece]

/-- With two files or more there is another folder with the same stream. -/
theorem exists_merged (h : 2 ≤ folder.files.length) :
    ∃ other, treeStream other = treeStream folder ∧ other ≠ folder := by
  obtain hnil | ⟨init, last, hlast⟩ := List.eq_nil_or_concat' folder.files
  · rw [hnil] at h
    exact absurd h (by decide)
  obtain hnil | ⟨front, file, hfile⟩ := List.eq_nil_or_concat' init
  · rw [hlast, hnil] at h
    exact absurd h (Nat.not_succ_le_self 1)
  obtain ⟨path, content⟩ := file
  obtain ⟨path', content'⟩ := last
  have hfiles : folder.files = front ++ [(path, content)] ++ [(path', content')] := by
    rw [hlast, hfile]
  let merged : BundleFile := (path, content ++ 0 :: (encode (pathText path') ++ 0 :: content'))
  have hkeys : (front ++ [merged]).map Prod.fst = (front ++ [(path, content)]).map Prod.fst := by
    simp [merged]
  have hordered := folder.ordered
  rw [hfiles] at hordered
  have hfront := (List.pairwise_append.mp hordered).1
  let other : BundleFolder :=
    { files := front ++ [merged]
      paths := by
        intro file hmem
        have hkey : file.1 ∈ (front ++ [(path, content)]).map Prod.fst :=
          hkeys ▸ List.mem_map_of_mem hmem
        obtain ⟨original, horiginal, heq⟩ := List.mem_map.mp hkey
        rw [← heq]
        refine folder.paths original ?_
        rw [hfiles]
        exact List.mem_append_left _ horiginal
      ordered := by
        have hmap : ((front ++ [(path, content)]).map Prod.fst).Pairwise
            fun path path' => path < path' ∧ ¬ path <+: path' := List.pairwise_map.mpr hfront
        rw [← hkeys] at hmap
        exact List.pairwise_map.mp hmap }
  refine ⟨other, ?_, ?_⟩
  · rw [treeStream_eq hfiles]
    simp [treeStream, other, merged, filePiece_merged]
  · intro heq
    have hlength := congrArg (fun folder : BundleFolder => folder.files.length) heq
    simp [other, hfiles] at hlength

theorem exists_split {path : RelativePath} (hfiles : folder.files = [file])
    (hpath : IsFilePath path) (hafter : file.1 < path) (hapart : ¬ file.1 <+: path)
    (hhides : HidesPath file.2 path) :
    ∃ other, treeStream other = treeStream folder ∧ other ≠ folder := by
  obtain ⟨before, after, hcontent⟩ := hhides
  let other : BundleFolder :=
    { files := [(file.1, before), (path, after)]
      paths := by
        rintro _ (_ | ⟨_, _ | ⟨_, ⟨⟩⟩⟩)
        · exact folder.paths file (hfiles ▸ List.mem_cons_self)
        · exact hpath
      ordered := List.pairwise_pair.mpr ⟨hafter, hapart⟩ }
  refine ⟨other, ?_, ?_⟩
  · have hpiece := filePiece_merged file.1 path before after
    rw [treeStream_eq hfiles]
    simp only [treeStream, other, List.flatMap_cons, List.flatMap_nil, List.append_nil]
    rw [← hpiece, ← hcontent]
  · intro heq
    have hlength := congrArg (fun folder : BundleFolder => folder.files.length) heq
    simp [other, hfiles] at hlength

theorem filePiece_ne_nil : filePiece file ≠ [] := by
  simp [filePiece]

/-- What the rest of a stream makes of the content before it. -/
theorem content_of_pieces {content content' : List UInt8} {next : BundleFile}
    (h : content ++ [0] = content' ++ [0] ++ (next :: files).flatMap filePiece) :
    HidesPath content next.1 := by
  obtain ⟨after, hafter⟩ : ∃ after, (next :: files).flatMap filePiece =
      encode (pathText next.1) ++ 0 :: (after ++ [0]) := by
    obtain hnil | ⟨front, last, hlast⟩ := List.eq_nil_or_concat' files
    · exact ⟨next.2, by simp [hnil, filePiece]⟩
    · exact ⟨next.2 ++ 0 :: (front.flatMap filePiece ++ encode (pathText last.1) ++ 0 :: last.2),
        by simp [hlast, filePiece]⟩
  refine ⟨content', after, (List.append_left_inj [0]).mp ?_⟩
  rw [h, hafter]
  simp

theorem eq_of_unmistakable (h : folder.Unmistakable)
    (hstream : treeStream other = treeStream folder) : other = folder := by
  refine BundleFolder.ext_files ?_
  cases hfiles : folder.files with
  | nil =>
    rw [treeStream_eq hfiles] at hstream
    cases hother : other.files with
    | nil => rfl
    | cons first rest =>
      rw [treeStream_eq hother, List.flatMap_nil, List.flatMap_cons] at hstream
      exact absurd (List.append_eq_nil_iff.mp hstream).1 filePiece_ne_nil
  | cons file rest =>
    obtain rfl : rest = [] := by
      have hsingle := h.single
      rw [hfiles, List.length_cons] at hsingle
      exact List.eq_nil_of_length_eq_zero (by omega)
    rw [treeStream_eq hfiles] at hstream
    have hpath := folder.paths file (hfiles ▸ List.mem_cons_self)
    cases hother : other.files with
    | nil =>
      rw [treeStream_eq hother, List.flatMap_nil, List.flatMap_cons] at hstream
      exact absurd (List.append_eq_nil_iff.mp hstream.symm).1 filePiece_ne_nil
    | cons first rest =>
      have hfirst := other.paths first (hother ▸ List.mem_cons_self)
      rw [treeStream_eq hother, List.flatMap_cons, List.flatMap_cons, List.flatMap_nil,
        List.append_nil, filePiece, filePiece, List.append_assoc, List.cons_append] at hstream
      obtain ⟨htext, hcontent⟩ :=
        eq_of_append_sep hstream (nul_notMem_encode hfirst) (nul_notMem_encode hpath)
      have hkey := pathText_injective hfirst hpath (encode_injective htext)
      cases rest with
      | nil =>
        rw [List.flatMap_nil, List.append_nil] at hcontent
        rw [Prod.ext hkey (List.append_cancel_right hcontent)]
      | cons next rest =>
        have hordered := other.ordered
        rw [hother] at hordered
        have hnext := List.rel_of_pairwise_cons hordered List.mem_cons_self
        rw [hkey] at hnext
        have hmem : next ∈ other.files := by simp [hother]
        exact absurd (content_of_pieces hcontent.symm)
          (h.plain file (hfiles ▸ List.mem_cons_self) next.1 (other.paths next hmem) hnext.1 hnext.2)

/-- A folder is the only one with its stream just when it is unmistakable. -/
theorem forall_treeStream_eq_iff :
    (∀ other, treeStream other = treeStream folder → other = folder) ↔ folder.Unmistakable := by
  constructor
  · intro hunique
    have hsingle : folder.files.length ≤ 1 := by
      by_contra hmany
      obtain ⟨other, hstream, hne⟩ := exists_merged (by omega : 2 ≤ folder.files.length)
      exact hne (hunique other hstream)
    refine ⟨hsingle, fun file hfile path hpath hafter hapart hhides => ?_⟩
    have hfiles : folder.files = [file] := by
      obtain ⟨first, hfirst⟩ := List.length_eq_one_iff.mp
        (Nat.le_antisymm hsingle (List.length_pos_of_mem hfile))
      rw [hfirst, List.mem_singleton] at hfile
      rw [hfirst, hfile]
    obtain ⟨other, hstream, hne⟩ := exists_split hfiles hpath hafter hapart hhides
    exact hne (hunique other hstream)
  · exact fun h _ => eq_of_unmistakable h

end Streams

end BuildTools
