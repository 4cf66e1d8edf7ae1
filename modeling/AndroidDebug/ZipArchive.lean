import AndroidDebug.FileDeletion

/-! The download of a directory: HttpDownHandler.zip walks the directory and writes one entry
after the other, and a reader makes files of the entries again. -/
namespace ZipArchive

open JavaText FileTree FileDeletion
open FilePaths (Location)

abbrev Bytes := List UInt8

structure ZipEntry where
  name : JString
  content : Bytes
  deriving DecidableEq, Repr

section Names

inductive Encoding where
  | gbk
  | utf8
  deriving DecidableEq, Repr

/-- A charset that has codes for some characters, those of ASCII among them. -/
structure Charset where
  encode : UInt16 → Option Bytes
  decode : Bytes → JString
  encode_ascii : ∀ u, u.toNat < 0x80 → encode u = some [UInt8.ofNat u.toNat]
  decode_encode : ∀ s : JString, (∀ u ∈ s, (encode u).isSome) →
    decode (s.flatMap fun u => (encode u).getD []) = s

/-- GBK, the text for bytes that are no UTF-8, and the length that the Deflater makes of the content
of an entry. -/
structure Runtime where
  gbk : Charset
  malformed : Bytes → JString
  deflated : Bytes → ℕ
  deflated_nil : deflated [] = 2

def hexDigit (n : ℕ) : UInt16 := UInt16.ofNat (if n < 10 then 0x30 + n else 0x37 + n)

/-- `%U` and the number of the character -/
def appendSurrogate (u : UInt16) : JString :=
  [0x25, 0x55, hexDigit (u.toNat / 4096 % 16), hexDigit (u.toNat / 256 % 16),
    hexDigit (u.toNat / 16 % 16), hexDigit (u.toNat % 16)]

variable (rt : Runtime)

/-- The name that ZipOutputStream writes; what GBK has no code for is spelled out. -/
def nameBytes : Encoding → JString → Bytes
  | .utf8, name => getBytes name
  | .gbk, name => name.flatMap fun u =>
    (rt.gbk.encode u).getD ((appendSurrogate u).map fun v => UInt8.ofNat v.toNat)

def readName : Encoding → Bytes → JString
  | .utf8, bytes => newString rt.malformed bytes
  | .gbk, bytes => rt.gbk.decode bytes

/-- The entry as a reader with the same encoding sees it. -/
def received (encoding : Encoding) (e : ZipEntry) : ZipEntry :=
  { e with name := readName rt encoding (nameBytes rt encoding e.name) }

end Names

def getName (file : File) : JString := (file.getLast?.map Subtype.val).getD []

def ZIP64_MAGIC : ℕ := 0xFFFFFFFF

section Zip

variable (rt : Runtime)

/-- An entry whose sizes are known only behind it has 32 bits for each of them. -/
def Fits (e : ZipEntry) : Prop :=
  e.content.length < ZIP64_MAGIC ∧ rt.deflated e.content < ZIP64_MAGIC

instance (e : ZipEntry) : Decidable (Fits rt e) := inferInstanceAs (Decidable (_ ∧ _))

/-- putNextEntry, write and closeEntry, which may throw a Zip64RequiredException. -/
def putEntry (zos : List ZipEntry) (e : ZipEntry) : Option (List ZipEntry) :=
  if Fits rt e then some (zos ++ [e]) else none

/-- `zos` is what has been written so far. `none` stands for an exception, or a recursion that is
deeper than `fuel`. -/
def zip : ℕ → Files Bytes → List ZipEntry → File → JString → Option (List ZipEntry)
  | 0, _, _, _, _ => none
  | fuel + 1, t, zos, file, base =>
    if isDirectory (t.node file) then
      match listFiles t file with
      | some (f :: files) =>
        (f :: files).foldlM (fun zos f => zip fuel t zos f (base ++ slash :: getName f)) zos
      | _ => putEntry rt zos ⟨base ++ [slash], []⟩
    else
      match t.node file with
      | some (.file content) => putEntry rt zos ⟨base, content⟩
      | _ => none

/-- `zip(File, OutputStream, String)`, read back entry by entry. -/
def zipFile (fuel : ℕ) (encoding : Encoding) (t : Files Bytes) (inputFile : File) :
    Option (List ZipEntry) :=
  (zip rt fuel t [] inputFile (getName inputFile)).map fun zos => zos.map (received rt encoding)

end Zip

def ZipEntry.isDirectory (e : ZipEntry) : Bool := e.name.getLast? = some slash

/-- The files of an archive that is unpacked into an empty directory. -/
def extract (entries : List ZipEntry) : File → Option (Node Bytes) :=
  unpack (fun _ => none)
    (entries.map fun e => (newFile e.name, if e.isDirectory then .directory else .file e.content))

/-- The directory as it is to appear under its own name. -/
def downloaded (t : Files Bytes) (root : File) (rootName : FileName) : File → Option (Node Bytes)
  | [] => none
  | n :: x => if n = rootName then t.node (root ++ x) else none

structure FaithfulArchive (t : Files Bytes) (root : File) (rootName : FileName)
    (entries : List ZipEntry) : Prop where
  mem_iff : ∀ e, e ∈ entries ↔
    (∃ x content, t.node (root ++ x) = some (.file content) ∧
      e = ⟨rootName.val ++ namesPath x, content⟩) ∨
    ∃ x, t.node (root ++ x) = some .directory ∧ t.children (root ++ x) = [] ∧
      e = ⟨rootName.val ++ namesPath x ++ [slash], []⟩
  distinct : (entries.map ZipEntry.name).Nodup
  rebuilt : extract entries = downloaded t root rootName

/-- The name comes back from its bytes. -/
def Encodable (rt : Runtime) : Encoding → JString → Prop
  | .utf8, name => WellFormed name
  | .gbk, name => ∀ u ∈ name, (rt.gbk.encode u).isSome

/-- The sizes of every file have room in its entry, and the names of what the archive lists have
codes in the encoding. -/
structure Archivable (rt : Runtime) (encoding : Encoding) (t : Files Bytes) (root : File)
    (rootName : FileName) : Prop where
  sizes : ∀ x content, t.node (root ++ x) = some (.file content) →
    content.length < ZIP64_MAGIC ∧ rt.deflated content < ZIP64_MAGIC
  names : ∀ x, t.IsLeaf (root ++ x) → Encodable rt encoding (rootName.val ++ namesPath x)

variable {rt : Runtime} {encoding : Encoding} {t : Files Bytes} {file l : File} {base : JString}

/-! Names as they are read back. -/

theorem hexDigit_lt {n : ℕ} (h : n < 16) : (hexDigit n).toNat < 0x80 := by
  revert n
  decide

theorem appendSurrogate_ascii (u : UInt16) : ∀ v ∈ appendSurrogate u, v.toNat < 0x80 := by
  have hdigit : ∀ n, (hexDigit (n % 16)).toNat < 0x80 :=
    fun n => hexDigit_lt (Nat.mod_lt n (by decide))
  simp [appendSurrogate, hdigit]

/-- The name with each character that GBK has no code for spelled out. -/
def spelled (cs : Charset) (name : JString) : JString :=
  name.flatMap fun u => if (cs.encode u).isSome then [u] else appendSurrogate u

theorem isSome_spelled (cs : Charset) (name : JString) :
    ∀ u ∈ spelled cs name, (cs.encode u).isSome := by
  intro u hu
  obtain ⟨v, -, hu⟩ := List.mem_flatMap.mp hu
  split at hu
  · rename_i hv
    rwa [List.mem_singleton.mp hu]
  · rw [cs.encode_ascii u (appendSurrogate_ascii v u hu)]
    rfl

theorem encode_asciis (cs : Charset) {text : JString} (h : ∀ u ∈ text, u.toNat < 0x80) :
    text.flatMap (fun u => (cs.encode u).getD []) = text.map fun u => UInt8.ofNat u.toNat := by
  induction text with
  | nil => rfl
  | cons u text ih =>
    obtain ⟨hu, htext⟩ := List.forall_mem_cons.mp h
    rw [List.flatMap_cons, ih htext, cs.encode_ascii u hu]
    rfl

theorem nameBytes_gbk (name : JString) : nameBytes rt .gbk name =
    (spelled rt.gbk name).flatMap fun u => (rt.gbk.encode u).getD [] := by
  rw [nameBytes, spelled, List.flatMap_assoc]
  apply List.flatMap_congr
  intro u _
  cases hu : rt.gbk.encode u with
  | none => simp [encode_asciis rt.gbk (appendSurrogate_ascii u)]
  | some code => simp [hu]

theorem readName_gbk (name : JString) :
    readName rt .gbk (nameBytes rt .gbk name) = spelled rt.gbk name := by
  rw [nameBytes_gbk]
  exact rt.gbk.decode_encode _ (isSome_spelled _ _)

theorem readName_utf8 (name : JString) :
    readName rt .utf8 (nameBytes rt .utf8 name) = units (scalars name) := by
  rw [readName, nameBytes, newString, getBytes, decode_encode (scalars_isScalar name)]

/-- Whatever comes back is a name that would. -/
theorem encodable_readName (encoding : Encoding) (name : JString) :
    Encodable rt encoding (readName rt encoding (nameBytes rt encoding name)) := by
  cases encoding with
  | gbk =>
    rw [readName_gbk]
    exact isSome_spelled _ _
  | utf8 =>
    rw [readName_utf8, Encodable, WellFormed, scalars_units (scalars_isScalar name)]

theorem readName_nameBytes {name : JString} (h : Encodable rt encoding name) :
    readName rt encoding (nameBytes rt encoding name) = name := by
  cases encoding with
  | gbk =>
    rw [readName_gbk, spelled]
    rw [List.flatMap_congr fun u hu => if_pos (h u hu), List.flatMap_singleton']
  | utf8 =>
    rw [readName_utf8]
    exact h

theorem scalars_concat_slash (name : JString) :
    scalars (name ++ [slash]) = scalars name ++ [slash.toNat] := by
  have hslash : ¬IsLowSurrogate slash := by decide
  fun_induction scalars name with
  | case1 => rfl
  | case2 u =>
    show scalars [u, slash] = _
    rw [scalars, if_neg fun h => hslash h.2]
    rfl
  | case3 u v rest hpair ih =>
    show scalars (u :: v :: (rest ++ [slash])) = _
    rw [scalars, if_pos hpair, ih]
    rfl
  | case4 u v rest hpair ih =>
    show scalars (u :: v :: (rest ++ [slash])) = _
    rw [scalars, if_neg hpair]
    exact congrArg _ ih

theorem encodable_slash {name : JString} :
    Encodable rt encoding (name ++ [slash]) ↔ Encodable rt encoding name := by
  cases encoding with
  | gbk =>
    have hslash : (rt.gbk.encode slash).isSome := by
      rw [rt.gbk.encode_ascii slash (by decide)]
      rfl
    simp only [Encodable, List.forall_mem_append, List.forall_mem_singleton, hslash, and_true]
  | utf8 =>
    rw [Encodable, Encodable, WellFormed, WellFormed, scalars_concat_slash, units,
      List.flatMap_append]
    exact ⟨fun h => List.append_cancel_right h, fun h => congrArg (· ++ [slash]) h⟩

/-- The entry of a leaf whose path below some base is `x`. -/
def entry (base : JString) (x : File) : Option (Node Bytes) → ZipEntry
  | some (.file content) => ⟨base ++ namesPath x, content⟩
  | _ => ⟨base ++ namesPath x ++ [slash], []⟩

/-- The entry of a leaf below `file`, which is written as `base`. -/
def entryBelow (t : Files Bytes) (file : File) (base : JString) (l : File) : ZipEntry :=
  entry base (l.drop file.length) (t.node l)

theorem entryBelow_self : entryBelow t file base file = entry base [] (t.node file) := by
  rw [entryBelow, List.drop_length]

theorem entryBelow_child {n : FileName} (h : file ++ [n] <+: l) :
    entryBelow t (file ++ [n]) (base ++ slash :: getName (file ++ [n])) l =
      entryBelow t file base l := by
  obtain ⟨x, rfl⟩ := h
  have hname : getName (file ++ [n]) = n.val := by simp [getName]
  have hx : (file ++ [n] ++ x).drop (file ++ [n]).length = x := List.drop_left
  have hnx : (file ++ [n] ++ x).drop file.length = n :: x := by
    rw [List.append_assoc, List.drop_left, List.singleton_append]
  have hpath : base ++ slash :: n.val ++ namesPath x = base ++ namesPath (n :: x) := by
    simp [namesPath]
  rw [entryBelow, entryBelow, hx, hnx, hname]
  unfold entry
  split <;> rw [hpath]

/-- The leaves of the tree below some nodes, each of them once. -/
structure Leaves (t : Files Bytes) (tops ls : List File) : Prop where
  nodup : ls.Nodup
  mem_iff : ∀ l, l ∈ ls ↔ (∃ m ∈ tops, m <+: l) ∧ t.IsLeaf l

theorem leaves_self (h : t.IsLeaf file) : Leaves t [file] [file] where
  nodup := List.nodup_singleton file
  mem_iff l := by
    constructor
    · intro hl
      obtain rfl := List.mem_singleton.mp hl
      exact ⟨⟨l, hl, List.prefix_refl l⟩, h⟩
    · rintro ⟨⟨m, hm, hl⟩, hleaf⟩
      obtain rfl := List.mem_singleton.mp hm
      rw [h.eq_of_descendant hl hleaf.node_ne_none]
      exact List.mem_singleton_self _

/-- The leaves below a directory that is not empty are those below its children. -/
theorem Leaves.of_children {ls : List File} (h : Leaves t (t.children file) ls)
    (hne : t.children file ≠ []) : Leaves t [file] ls where
  nodup := h.nodup
  mem_iff l := by
    rw [h.mem_iff]
    refine and_congr_left fun hleaf => ?_
    constructor
    · rintro ⟨m, hm, hl⟩
      exact ⟨file, List.mem_singleton_self file, (below_children ⟨m, hm, hl⟩).1⟩
    · rintro ⟨m, hm, hl⟩
      obtain rfl := List.mem_singleton.mp hm
      refine (Tree.child_of_descendant hl hleaf.node_ne_none).resolve_left ?_
      rintro rfl
      rcases hleaf with ⟨content, hfile⟩ | ⟨-, hempty⟩
      · exact hne (Tree.children_eq_nil (by simp [hfile]))
      · exact hne hempty

theorem Leaves.append {m : File} {ms ls ls' : List File} (h : Leaves t [m] ls)
    (h' : Leaves t ms ls') (hapart : ∀ m' ∈ ms, ∀ l, m <+: l → ¬m' <+: l) :
    Leaves t (m :: ms) (ls ++ ls') where
  nodup := by
    apply List.Nodup.append h.nodup h'.nodup
    intro l hl hl'
    obtain ⟨⟨m₁, hm₁, hbelow₁⟩, -⟩ := (h.mem_iff l).mp hl
    obtain ⟨⟨m₂, hm₂, hbelow₂⟩, -⟩ := (h'.mem_iff l).mp hl'
    obtain rfl := List.mem_singleton.mp hm₁
    exact hapart m₂ hm₂ l hbelow₁ hbelow₂
  mem_iff l := by
    rw [List.mem_append, h.mem_iff, h'.mem_iff, ← or_and_right]
    simp

theorem children_apart {m m' : File} (hm : m ∈ t.children file) (hm' : m' ∈ t.children file)
    (hne : m ≠ m') : ∀ l, m <+: l → ¬m' <+: l := by
  intro l hl hl'
  obtain ⟨-, n, rfl⟩ := Tree.mem_children_iff.mp hm
  obtain ⟨-, n', rfl⟩ := Tree.mem_children_iff.mp hm'
  have hlength : (file ++ [n]).length = (file ++ [n']).length := by simp
  apply hne
  exact (List.prefix_of_prefix_length_le hl hl' hlength.le).eq_of_length hlength

theorem leaves_nil : Leaves t [] [] :=
  ⟨List.nodup_nil, fun _ => ⟨fun h => absurd h List.not_mem_nil,
    fun ⟨⟨_, h, _⟩, _⟩ => absurd h List.not_mem_nil⟩⟩

theorem foldlM_putEntry (es zos : List ZipEntry) :
    es.foldlM (putEntry rt) zos = if ∀ e ∈ es, Fits rt e then some (zos ++ es) else none := by
  induction es generalizing zos with
  | nil => simp
  | cons e es ih =>
    rw [List.foldlM_cons]
    by_cases he : Fits rt e
    · rw [putEntry, if_pos he, Option.bind_eq_bind, Option.bind_some, ih]
      simp [he]
    · rw [putEntry, if_neg he, if_neg fun h => he (h e List.mem_cons_self)]
      rfl

/-- What is written for a file, with this much fuel, is an entry for each leaf below it. -/
def Writes (rt : Runtime) (t : Files Bytes) (enough : ℕ) (file : File) (ls : List File) : Prop :=
  ∀ fuel zos base, enough ≤ fuel →
    zip rt fuel t zos file base = (ls.map (entryBelow t file base)).foldlM (putEntry rt) zos

/-- The loop over the children, each of which writes its leaves. -/
theorem zip_children {enough : ℕ} {ms : List File} (hms : ∀ m ∈ ms, m ∈ t.children file)
    (hnodup : ms.Nodup) (hzip : ∀ m ∈ ms, ∃ ls, Leaves t [m] ls ∧ Writes rt t enough m ls) :
    ∃ ls, Leaves t ms ls ∧ ∀ fuel zos base, enough ≤ fuel →
      ms.foldlM (fun zos f => zip rt fuel t zos f (base ++ slash :: getName f)) zos =
        (ls.map (entryBelow t file base)).foldlM (putEntry rt) zos := by
  induction ms with
  | nil =>
    refine ⟨[], leaves_nil, fun fuel zos base _ => ?_⟩
    simp
  | cons m ms ih =>
    obtain ⟨hm, hrest⟩ := List.forall_mem_cons.mp hms
    obtain ⟨hnew, hnodup⟩ := List.nodup_cons.mp hnodup
    obtain ⟨hone, hothers⟩ := List.forall_mem_cons.mp hzip
    obtain ⟨ls, hleaves, hwrites⟩ := hone
    obtain ⟨ls', hleaves', hloop⟩ := ih hrest hnodup hothers
    refine ⟨ls ++ ls', hleaves.append hleaves' ?_, fun fuel zos base hfuel => ?_⟩
    · intro m' hm'
      refine children_apart hm (hrest m' hm') ?_
      rintro rfl
      exact hnew hm'
    · have hsame : ls.map (entryBelow t m (base ++ slash :: getName m)) =
          ls.map (entryBelow t file base) := by
        apply List.map_congr_left
        intro l hl
        obtain ⟨⟨m', hm', hbelow⟩, -⟩ := (hleaves.mem_iff l).mp hl
        obtain rfl := List.mem_singleton.mp hm'
        obtain ⟨-, n, rfl⟩ := Tree.mem_children_iff.mp hm
        exact entryBelow_child hbelow
      rw [List.foldlM_cons, hwrites fuel zos _ hfuel, hsame, List.map_append, List.foldlM_append]
      simp only [hloop fuel _ base hfuel]

theorem zip_leaf {node : Node Bytes} (hnode : t.node file = some node) (hleaf : t.IsLeaf file) :
    Writes rt t 1 file [file] := by
  rintro (_ | fuel) zos base hfuel
  · omega
  rw [List.map_singleton, entryBelow_self, hnode, List.foldlM_cons]
  simp only [List.foldlM_nil, bind_pure]
  cases node with
  | file content => simp [zip, hnode, isDirectory, entry, namesPath]
  | directory =>
    have hempty : t.children file = [] := by
      rcases hleaf with ⟨content, hfile⟩ | ⟨-, hempty⟩
      · rw [hnode] at hfile
        cases hfile
      · exact hempty
    simp [zip, hnode, isDirectory, listFiles, hempty, entry, namesPath]

theorem zip_leaves {enough : ℕ} (hnode : t.node file ≠ none)
    (hdepth : t.depth ≤ file.length + enough) :
    ∃ ls, Leaves t [file] ls ∧ Writes rt t enough file ls := by
  induction enough generalizing file with
  | zero =>
    have := Tree.length_lt_depth hnode
    omega
  | succ enough ih =>
    obtain ⟨node, hsome⟩ := Option.ne_none_iff_exists'.mp hnode
    by_cases hleaf : t.IsLeaf file
    · refine ⟨[file], leaves_self hleaf, fun fuel zos base hfuel => ?_⟩
      exact zip_leaf hsome hleaf fuel zos base (by omega)
    have hdir : t.node file = some .directory := by
      cases node with
      | file content => exact absurd (.inl ⟨content, hsome⟩) hleaf
      | directory => exact hsome
    have hne : t.children file ≠ [] := fun hempty => hleaf (.inr ⟨hdir, hempty⟩)
    have hchildren : ∀ m ∈ t.children file, ∃ ls, Leaves t [m] ls ∧ Writes rt t enough m ls := by
      intro m hm
      obtain ⟨hin, n, rfl⟩ := Tree.mem_children_iff.mp hm
      refine ih hin ?_
      rw [List.length_append, List.length_singleton]
      omega
    obtain ⟨ls, hleaves, hloop⟩ :=
      zip_children (fun _ h => h) (t.nodes.keys_nodup.filter _) hchildren
    refine ⟨ls, hleaves.of_children hne, ?_⟩
    rintro (_ | fuel) zos base hfuel
    · omega
    obtain ⟨f, files, hcons⟩ := List.exists_cons_of_ne_nil hne
    rw [hcons] at hloop
    simp only [zip, hdir, isDirectory, listFiles, if_true, hcons]
    exact hloop fuel zos base (by omega)

/-! Names and what the reader makes of them. -/

theorem newFile_slash (s u : JString) : newFile (s ++ slash :: u) = newFile s ++ newFile u := by
  rw [newFile, List.splitOn_append_cons_self, List.filterMap_append]
  rfl

theorem newFile_nil : newFile [] = [] := by decide

theorem newFile_name (n : FileName) (x : File) : newFile (n.val ++ namesPath x) = n :: x := by
  have hpath : getAbsolutePath (n :: x) = [] ++ slash :: (n.val ++ namesPath x) := by
    rw [getAbsolutePath, if_neg (List.cons_ne_nil n x)]
    rfl
  have hback := newFile_getAbsolutePath (n :: x)
  rwa [hpath, newFile_slash, newFile_nil, List.nil_append] at hback

theorem last_of_name (n : FileName) (x : File) :
    (n.val ++ namesPath x).getLast? ≠ some slash := by
  have hname : ∀ n : FileName, n.val.getLast? ≠ some slash := by
    intro n hlast
    exact n.property.2.1 (List.mem_of_getLast? hlast)
  have hcons : ∀ n : FileName, (slash :: n.val).getLast? = n.val.getLast? := by
    intro n
    obtain ⟨u, us, hu⟩ := List.exists_cons_of_ne_nil n.property.1
    rw [hu, List.getLast?_cons_cons]
  rcases List.eq_nil_or_concat' x with rfl | ⟨x, n', rfl⟩
  · simpa [namesPath] using hname n
  · rw [namesPath_concat, ← List.append_assoc, List.getLast?_append, hcons]
    cases hlast : n'.val.getLast? with
    | none => exact absurd (List.getLast?_eq_none_iff.mp hlast) n'.property.1
    | some u =>
      rw [Option.some_or, ← hlast]
      exact hname n'

/-- The place and the node that the reader sees in the entry of a leaf. -/
theorem read_entry (n : FileName) (x : File) (node : Node Bytes) :
    newFile (entry n.val x (some node)).name = n :: x ∧
      (if (entry n.val x (some node)).isDirectory then .directory
        else .file (entry n.val x (some node)).content) = node := by
  cases node with
  | file content =>
    refine ⟨newFile_name n x, ?_⟩
    have hnot : ¬(entry n.val x (some (.file content))).isDirectory = true := by
      simpa [ZipEntry.isDirectory, entry] using last_of_name n x
    rw [if_neg hnot]
    rfl
  | directory =>
    have hpath : (entry n.val x (some .directory)).name = n.val ++ namesPath x ++ slash :: [] := rfl
    have hdir : (entry n.val x (some .directory)).isDirectory = true := by
      simp [ZipEntry.isDirectory, entry]
    rw [hpath, newFile_slash, newFile_name, newFile_nil, List.append_nil, if_pos hdir]
    exact ⟨rfl, rfl⟩

variable {root : File} {rootName : FileName} {ls : List File}

theorem inDirectories_downloaded : InDirectories (downloaded t root rootName) := by
  rintro m l hm ⟨y, rfl⟩ hne hl
  obtain ⟨n, x, rfl⟩ := List.exists_cons_of_ne_nil hm
  have hy : y ≠ [] := by
    rintro rfl
    exact hne (List.append_nil _).symm
  obtain ⟨n', y, rfl⟩ := List.exists_cons_of_ne_nil hy
  by_cases hn : n = rootName
  · have hin : t.node (root ++ (x ++ n' :: y)) ≠ none := by
      simpa [downloaded, hn] using hl
    rw [downloaded, if_pos hn]
    apply Tree.node_above
    rwa [← List.append_assoc] at hin
  · exact absurd (by simp [downloaded, hn]) hl

theorem entryBelow_root (x : File) :
    entryBelow t root rootName.val (root ++ x) = entry rootName.val x (t.node (root ++ x)) := by
  rw [entryBelow, List.drop_left]

theorem mem_leaves_root (h : Leaves t [root] ls) (l : File) :
    l ∈ ls ↔ ∃ x, l = root ++ x ∧ t.IsLeaf (root ++ x) := by
  rw [h.mem_iff]
  constructor
  · rintro ⟨⟨m, hm, x, rfl⟩, hleaf⟩
    obtain rfl := List.mem_singleton.mp hm
    exact ⟨x, rfl, hleaf⟩
  · rintro ⟨x, rfl, hleaf⟩
    exact ⟨⟨root, List.mem_singleton_self root, List.prefix_append root x⟩, hleaf⟩

theorem mem_entries_iff (h : Leaves t [root] ls) (e : ZipEntry) :
    e ∈ ls.map (entryBelow t root rootName.val) ↔
      (∃ x content, t.node (root ++ x) = some (.file content) ∧
        e = ⟨rootName.val ++ namesPath x, content⟩) ∨
      ∃ x, t.node (root ++ x) = some .directory ∧ t.children (root ++ x) = [] ∧
        e = ⟨rootName.val ++ namesPath x ++ [slash], []⟩ := by
  rw [List.mem_map]
  constructor
  · rintro ⟨l, hl, rfl⟩
    obtain ⟨x, rfl, ⟨content, hfile⟩ | ⟨hdir, hempty⟩⟩ := (mem_leaves_root h l).mp hl
    · exact .inl ⟨x, content, hfile, by rw [entryBelow_root, hfile, entry]⟩
    · refine .inr ⟨x, hdir, hempty, ?_⟩
      rw [entryBelow_root, hdir]
      rfl
  · rintro (⟨x, content, hfile, rfl⟩ | ⟨x, hdir, hempty, rfl⟩)
    · refine ⟨root ++ x, (mem_leaves_root h _).mpr ⟨x, rfl, .inl ⟨content, hfile⟩⟩, ?_⟩
      rw [entryBelow_root, hfile, entry]
    · refine ⟨root ++ x, (mem_leaves_root h _).mpr ⟨x, rfl, .inr ⟨hdir, hempty⟩⟩, ?_⟩
      rw [entryBelow_root, hdir]
      rfl

theorem read_leaf (rootName : FileName) (h : Leaves t [root] ls) {l : File} (hl : l ∈ ls) :
    ∃ x node, l = root ++ x ∧ t.node l = some node ∧
      newFile (entryBelow t root rootName.val l).name = rootName :: x ∧
      (if (entryBelow t root rootName.val l).isDirectory then .directory
        else .file (entryBelow t root rootName.val l).content) = node := by
  obtain ⟨x, rfl, hleaf⟩ := (mem_leaves_root h l).mp hl
  obtain ⟨node, hnode⟩ := Option.ne_none_iff_exists'.mp hleaf.node_ne_none
  rw [entryBelow_root, hnode]
  exact ⟨x, node, rfl, rfl, read_entry rootName x node⟩

theorem faithful_of_leaves (h : Leaves t [root] ls) :
    FaithfulArchive t root rootName (ls.map (entryBelow t root rootName.val)) where
  mem_iff := mem_entries_iff h
  distinct := by
    rw [List.map_map]
    refine h.nodup.map_on fun l hl l' hl' hname => ?_
    obtain ⟨x, -, rfl, -, hread, -⟩ := read_leaf rootName h hl
    obtain ⟨x', -, rfl, -, hread', -⟩ := read_leaf rootName h hl'
    rw [Function.comp_apply, Function.comp_apply] at hname
    rw [hname, hread'] at hread
    rw [(List.cons.inj hread).2]
  rebuilt := by
    apply unpack_eq inDirectories_downloaded rfl
    · intro e he
      rw [List.map_map] at he
      obtain ⟨l, hl, rfl⟩ := List.mem_map.mp he
      obtain ⟨x, node, rfl, hnode, hread, hseen⟩ := read_leaf rootName h hl
      simp only [Function.comp_apply, hread, hseen]
      rw [downloaded, if_pos rfl, hnode]
    · intro m hm
      cases m with
      | nil => exact absurd rfl hm
      | cons n x =>
        by_cases hn : n = rootName
        · obtain rfl := hn
          rw [downloaded, if_pos rfl] at hm
          obtain ⟨l, ⟨y, rfl⟩, hleaf⟩ := Tree.exists_leaf hm
          rw [List.append_assoc] at hleaf
          have hl := (mem_leaves_root h _).mpr ⟨x ++ y, rfl, hleaf⟩
          obtain ⟨z, node, hz, -, hread, -⟩ := read_leaf n h hl
          obtain rfl := List.append_cancel_left hz
          refine ⟨_, List.mem_map_of_mem (List.mem_map_of_mem hl), ?_⟩
          rw [hread]
          exact ⟨y, rfl⟩
        · rw [downloaded, if_neg hn] at hm
          exact absurd rfl hm

theorem fits_entry (x : File) (node : Node Bytes) : Fits rt (entry base x (some node)) ↔
    ∀ content, node = .file content →
      content.length < ZIP64_MAGIC ∧ rt.deflated content < ZIP64_MAGIC := by
  cases node with
  | file content => simp [entry, Fits]
  | directory => simp [entry, Fits, rt.deflated_nil, ZIP64_MAGIC]

theorem fits_leaves (rootName : FileName) (h : Leaves t [root] ls) :
    (∀ e ∈ ls.map (entryBelow t root rootName.val), Fits rt e) ↔
      ∀ x content, t.node (root ++ x) = some (.file content) →
        content.length < ZIP64_MAGIC ∧ rt.deflated content < ZIP64_MAGIC := by
  simp only [List.forall_mem_map]
  constructor
  · intro hfits x content hfile
    have hleaf := (mem_leaves_root h (root ++ x)).mpr ⟨x, rfl, .inl ⟨content, hfile⟩⟩
    have hfit := hfits (root ++ x) hleaf
    rw [entryBelow_root, hfile, fits_entry] at hfit
    exact hfit content rfl
  · intro hsizes l hl
    obtain ⟨x, rfl, hleaf⟩ := (mem_leaves_root h l).mp hl
    obtain ⟨node, hnode⟩ := Option.ne_none_iff_exists'.mp hleaf.node_ne_none
    rw [entryBelow_root, hnode, fits_entry]
    rintro content rfl
    exact hsizes x content hnode

theorem encodable_entry (x : File) (node : Option (Node Bytes)) :
    Encodable rt encoding (entry base x node).name ↔
      Encodable rt encoding (base ++ namesPath x) := by
  unfold entry
  split
  · rfl
  · exact encodable_slash

/-- A name that is lost is the name of no entry that is read back. -/
theorem encodable_of_faithful {entries : List ZipEntry}
    (h : FaithfulArchive t root rootName (entries.map (received rt encoding))) {x : File}
    (hleaf : t.IsLeaf (root ++ x)) : Encodable rt encoding (rootName.val ++ namesPath x) := by
  obtain ⟨node, hnode⟩ := Option.ne_none_iff_exists'.mp hleaf.node_ne_none
  have hmem : entry rootName.val x (some node) ∈ entries.map (received rt encoding) := by
    rw [h.mem_iff]
    rcases hleaf with ⟨content, hfile⟩ | ⟨hdir, hempty⟩
    · obtain rfl := Option.some.inj (hnode.symm.trans hfile)
      exact .inl ⟨x, content, hfile, rfl⟩
    · obtain rfl := Option.some.inj (hnode.symm.trans hdir)
      exact .inr ⟨x, hdir, hempty, rfl⟩
  obtain ⟨e, -, he⟩ := List.mem_map.mp hmem
  have hname : Encodable rt encoding (received rt encoding e).name := encodable_readName _ _
  rw [he] at hname
  exact (encodable_entry x (some node)).mp hname

theorem received_leaves (h : Leaves t [root] ls)
    (hnames : ∀ x, t.IsLeaf (root ++ x) → Encodable rt encoding (rootName.val ++ namesPath x)) :
    (ls.map (entryBelow t root rootName.val)).map (received rt encoding) =
      ls.map (entryBelow t root rootName.val) := by
  rw [List.map_map]
  apply List.map_congr_left
  intro l hl
  obtain ⟨x, rfl, hleaf⟩ := (mem_leaves_root h l).mp hl
  have hname := (encodable_entry x (t.node (root ++ x))).mpr (hnames x hleaf)
  rw [Function.comp_apply, received, entryBelow_root, readName_nameBytes hname]

/-- The download of a directory is one and the same faithful archive, whenever the recursion is
allowed as deep as the tree, if and only if the sizes have room and the names have codes. -/
theorem zipFile_faithful_iff (rt : Runtime) (encoding : Encoding) (t : Files Bytes) (above : File)
    (rootName : FileName) (hdir : t.node (above ++ [rootName]) = some .directory) :
    (∃ entries, FaithfulArchive t (above ++ [rootName]) rootName entries ∧
      ∀ fuel, t.depth ≤ fuel →
        zipFile rt fuel encoding t (above ++ [rootName]) = some entries) ↔
      Archivable rt encoding t (above ++ [rootName]) rootName := by
  have hnode : t.node (above ++ [rootName]) ≠ none := by
    rw [hdir]
    exact Option.some_ne_none _
  have hname : getName (above ++ [rootName]) = rootName.val := by simp [getName]
  obtain ⟨ls, hleaves, hwrites⟩ := @zip_leaves rt t _ t.depth hnode (Nat.le_add_left _ _)
  have hzip : ∀ fuel, t.depth ≤ fuel → zipFile rt fuel encoding t (above ++ [rootName]) =
      (if ∀ e ∈ ls.map (entryBelow t (above ++ [rootName]) rootName.val), Fits rt e then
        some (ls.map (entryBelow t (above ++ [rootName]) rootName.val)) else none).map
        fun zos => zos.map (received rt encoding) := by
    intro fuel hfuel
    rw [zipFile, hwrites fuel [] _ hfuel, hname, foldlM_putEntry, List.nil_append]
  constructor
  · rintro ⟨entries, hfaithful, hall⟩
    have hentries := (hall t.depth (le_refl _)).symm.trans (hzip t.depth (le_refl _))
    split at hentries
    · rename_i hfits
      obtain rfl := Option.some.inj hentries
      exact ⟨(fits_leaves rootName hleaves).mp hfits, fun x => encodable_of_faithful hfaithful⟩
    · cases hentries
  · rintro ⟨hsizes, hnames⟩
    refine ⟨_, faithful_of_leaves hleaves, fun fuel hfuel => ?_⟩
    rw [hzip fuel hfuel, if_pos ((fits_leaves rootName hleaves).mpr hsizes), Option.map_some,
      received_leaves hleaves hnames]

section Hangul

/-- A charset with the codes of ASCII only. -/
def asciiCharset : Charset where
  encode u := if u.toNat < 0x80 then some [UInt8.ofNat u.toNat] else none
  decode bytes := bytes.map fun b => UInt16.ofNat b.toNat
  encode_ascii u h := if_pos h
  decode_encode s h := by
    induction s with
    | nil => rfl
    | cons u s ih =>
      obtain ⟨hu, hs⟩ := List.forall_mem_cons.mp h
      have hsmall : u.toNat < 0x80 := by
        by_contra hlarge
        rw [if_neg hlarge] at hu
        cases hu
      have hbyte : (UInt8.ofNat u.toNat).toNat = u.toNat :=
        UInt8.toNat_ofNat_of_lt' (by rw [UInt8.size]; omega)
      rw [List.flatMap_cons, if_pos hsmall, Option.getD_some, List.map_append, ih hs,
        List.map_singleton, hbyte, UInt16.ofNat_toNat]
      rfl

/-- Nothing is made shorter. -/
def storing : Runtime where
  gbk := asciiCharset
  malformed _ := []
  deflated content := content.length + 2
  deflated_nil := rfl

def notes : FileName := ⟨ofString "notes", by decide⟩
def hangul : FileName := ⟨[0xAC00], by decide⟩
def spelledHangul : FileName := ⟨ofString "%UAC00", by decide⟩

theorem hangul_nodup : [[], [notes], [notes, hangul], [notes, spelledHangul]].Nodup := by decide

/-- A directory with a file whose name is a syllable, and one whose name spells that out. -/
def hangulTree : Files Bytes where
  nodes := ⟨[⟨[], .directory⟩, ⟨[notes], .directory⟩, ⟨[notes, hangul], .file [1]⟩,
    ⟨[notes, spelledHangul], .file [2]⟩], hangul_nodup⟩
  inDirectory l n h := by
    have hkeys : l ++ [n] ∈ [[], [notes], [notes, hangul], [notes, spelledHangul]] := h
    simp only [List.mem_cons, List.not_mem_nil, or_false] at hkeys
    rcases hkeys with hkey | hkey | hkey | hkey
    · simp at hkey
    · have hl := (List.append_inj' (show l ++ [n] = [] ++ [notes] from hkey) rfl).1
      rw [hl]
      rfl
    · have hl := (List.append_inj' (show l ++ [n] = [notes] ++ [hangul] from hkey) rfl).1
      rw [hl]
      rfl
    · have hl := (List.append_inj' (show l ++ [n] = [notes] ++ [spelledHangul] from hkey) rfl).1
      rw [hl]
      rfl

theorem archivable_hangul : Archivable storing .utf8 hangulTree [notes] notes := by
  have hbelow : ∀ x, hangulTree.node ([notes] ++ x) ≠ none →
      x = [] ∨ x = [hangul] ∨ x = [spelledHangul] := by
    intro x hx
    have hkeys : notes :: x ∈ [[], [notes], [notes, hangul], [notes, spelledHangul]] :=
      FileTree.Tree.mem_nodes_iff.mpr hx
    simpa using hkeys
  constructor
  · intro x content hfile
    have hnode : hangulTree.node ([notes] ++ x) ≠ none := by
      rw [hfile]
      exact Option.some_ne_none _
    rcases hbelow x hnode with rfl | rfl | rfl <;> cases hfile <;> decide
  · intro x hleaf
    rcases hbelow x hleaf.node_ne_none with rfl | rfl | rfl
    · show WellFormed (notes.val ++ namesPath [])
      decide
    · show WellFormed (notes.val ++ namesPath [hangul])
      decide
    · show WellFormed (notes.val ++ namesPath [spelledHangul])
      decide

theorem zipFile_faithful_hangul :
    (∃ entries, FaithfulArchive hangulTree [notes] notes entries ∧
      ∀ fuel, hangulTree.depth ≤ fuel →
        zipFile storing fuel .utf8 hangulTree [notes] = some entries) ∧
    ¬∃ entries, FaithfulArchive hangulTree [notes] notes entries ∧
      ∀ fuel, hangulTree.depth ≤ fuel →
        zipFile storing fuel .gbk hangulTree [notes] = some entries := by
  constructor
  · exact (zipFile_faithful_iff storing .utf8 hangulTree [] notes rfl).mpr archivable_hangul
  · intro h
    have hnames := ((zipFile_faithful_iff storing .gbk hangulTree [] notes rfl).mp h).names
    have hleaf : hangulTree.IsLeaf ([notes] ++ [hangul]) := .inl ⟨[1], rfl⟩
    exact absurd (hnames [hangul] hleaf 0xAC00 (by decide)) (by decide)

/-- Two files are sent under one name. -/
theorem names_collide :
    (zipFile storing 3 .gbk hangulTree [notes]).map (fun es => es.map ZipEntry.name) =
        some [ofString "notes/%UAC00", ofString "notes/%UAC00"] ∧
      ¬∀ rt encoding t above rootName, t.node (above ++ [rootName]) = some .directory →
        ∃ entries, FaithfulArchive t (above ++ [rootName]) rootName entries ∧
          ∀ fuel, t.depth ≤ fuel →
            zipFile rt fuel encoding t (above ++ [rootName]) = some entries := by
  have hnames : (zipFile storing 3 .gbk hangulTree [notes]).map (fun es => es.map ZipEntry.name) =
      some [ofString "notes/%UAC00", ofString "notes/%UAC00"] := by decide +kernel
  refine ⟨hnames, fun h => ?_⟩
  obtain ⟨entries, hfaithful, hall⟩ := h storing .gbk hangulTree [] notes rfl
  have hentries : zipFile storing 3 .gbk hangulTree [notes] = some entries :=
    hall 3 (by decide)
  rw [hentries, Option.map_some, Option.some_inj] at hnames
  have hdistinct := hfaithful.distinct
  rw [hnames] at hdistinct
  exact absurd hdistinct (by decide)

end Hangul

end ZipArchive
