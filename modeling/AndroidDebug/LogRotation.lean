import AndroidDebug.LogUtils
import Mathlib.Order.Defs.LinearOrder
import Mathlib.Data.List.Nodup
import Mathlib.Data.List.Induction
import Mathlib.Order.Fin.Basic

/-! The logger's directory as one log in parts. Each part but the last of a date is full, and
what is lost is lost at the front. -/
namespace LogRotation

open LogUtils

structure Part (δ : Type*) where
  date : δ
  index : ℕ
  records : List Bytes
  time : ℕ

variable {δ : Type*}

namespace Part

def bytes (p : Part δ) : Bytes := p.records.flatten

def file (p : Part δ) : LogFile := ⟨p.bytes, p.time⟩

def name (P : Platform δ) (p : Part δ) : Name := fileName P p.date p.index

def IsFull (p : Part δ) : Prop := MAX_FILE_SIZE < p.bytes.length

/-- The first part is complete when the second one is begun. -/
structure Before [LinearOrder δ] (p q : Part δ) : Prop where
  time : p.time < q.time
  place : p.date < q.date ∨ p.date = q.date ∧ p.index < q.index ∧ p.IsFull

def shift (d : ℕ) (p : Part δ) : Part δ := { p with index := p.index - d }

def add (p : Part δ) (record : Bytes) (time : ℕ) : Part δ :=
  { p with records := p.records ++ [record], time := time }

end Part

def records (parts : List (Part δ)) : List Bytes := parts.flatMap Part.records

/-- The files of the directory are these parts. -/
def Shows (P : Platform δ) (dir : Directory) (parts : List (Part δ)) : Prop :=
  ∀ name f, dir.lookup name = some f ↔ ∃ p ∈ parts, p.name P = name ∧ p.file = f

variable {P : Platform δ} {dir : Directory} {parts rest : List (Part δ)} {p q : Part δ}

section Files

theorem Shows.lookup_mem (h : Shows P dir parts) (hp : p ∈ parts) :
    dir.lookup (p.name P) = some p.file :=
  (h _ _).mpr ⟨p, hp, rfl, rfl⟩

theorem Shows.lookup_none (h : Shows P dir parts) {name : Name}
    (hname : ∀ p ∈ parts, p.name P ≠ name) : dir.lookup name = none := by
  cases hlookup : dir.lookup name with
  | none => rfl
  | some f =>
    obtain ⟨p, hp, heq, -⟩ := (h name f).mp hlookup
    exact absurd heq (hname p hp)

theorem Shows.congr {parts' : List (Part δ)} (h : Shows P dir parts)
    (hmem : ∀ p, p ∈ parts' ↔ p ∈ parts) : Shows P dir parts' := by
  intro name f
  simp only [hmem]
  exact h name f

theorem Shows.erase (h : Shows P dir (p :: rest)) (hne : ∀ q ∈ rest, q.name P ≠ p.name P) :
    Shows P (dir.erase (p.name P)) rest := by
  intro name f
  by_cases hname : name = p.name P
  · subst hname
    rw [AList.lookup_erase]
    apply iff_of_false (by simp)
    rintro ⟨q, hq, heq, -⟩
    exact hne q hq heq
  · rw [AList.lookup_erase_ne hname, h name f]
    simp [Ne.symm hname]

theorem Shows.insert (h : Shows P dir rest) (hne : ∀ r ∈ rest, r.name P ≠ q.name P) :
    Shows P (dir.insert (q.name P) q.file) (q :: rest) := by
  intro name f
  by_cases hname : name = q.name P
  · subst hname
    rw [AList.lookup_insert]
    constructor
    · intro hf
      exact ⟨q, List.mem_cons_self .., rfl, Option.some.inj hf⟩
    · rintro ⟨r, hr, heq, hf⟩
      rcases List.mem_cons.mp hr with rfl | hr
      · rw [hf]
      · exact absurd heq (hne r hr)
  · rw [AList.lookup_insert_ne hname, h name f]
    simp [Ne.symm hname]

/-- One file takes the place of another under the same name. -/
theorem Shows.replace (h : Shows P dir (p :: rest)) (hne : ∀ r ∈ rest, r.name P ≠ p.name P)
    (hname : q.name P = p.name P) : Shows P (dir.insert (q.name P) q.file) (q :: rest) := by
  have herase := (h.erase hne).insert (q := q) fun r hr => by
    rw [hname]
    exact hne r hr
  intro name f
  rw [← herase name f]
  by_cases hk : name = q.name P
  · rw [hk, AList.lookup_insert, AList.lookup_insert]
  · rw [AList.lookup_insert_ne hk, AList.lookup_insert_ne hk,
      AList.lookup_erase_ne fun heq => hk (heq.trans hname.symm)]

theorem Shows.renameTo (h : Shows P dir (p :: rest)) (hfile : q.file = p.file)
    (hp : ∀ r ∈ rest, r.name P ≠ p.name P) (hq : ∀ r ∈ rest, r.name P ≠ q.name P) :
    Shows P (renameTo dir (p.name P) (q.name P)) (q :: rest) := by
  rw [LogUtils.renameTo, h.lookup_mem (List.mem_cons_self ..), ← hfile]
  exact (h.erase hp).insert hq

theorem Shows.keys_perm (h : Shows P dir parts) (hnodup : (parts.map (Part.name P)).Nodup) :
    dir.keys.Perm (parts.map (Part.name P)) := by
  apply (List.perm_ext_iff_of_nodup dir.keys_nodup hnodup).mpr
  intro name
  rw [← AList.mem_keys, ← AList.lookup_isSome, Option.isSome_iff_exists, List.mem_map]
  constructor
  · rintro ⟨f, hf⟩
    obtain ⟨p, hp, hname, -⟩ := (h name f).mp hf
    exact ⟨p, hp, hname⟩
  · rintro ⟨p, hp, rfl⟩
    exact ⟨p.file, h.lookup_mem hp⟩

theorem Shows.isFull_iff (h : Shows P dir parts) (hp : p ∈ parts) :
    isFull dir (p.name P) = true ↔ p.IsFull := by
  rw [isFull, h.lookup_mem hp]
  simp [Part.IsFull, Part.file]

theorem Shows.lastModified_eq (h : Shows P dir parts) (hp : p ∈ parts) :
    lastModified dir (p.name P) = p.time := by
  rw [lastModified, h.lookup_mem hp]
  rfl

theorem Shows.bytesOf_eq (h : Shows P dir parts) (hp : p ∈ parts) :
    bytesOf dir (p.name P) = p.bytes := by
  rw [bytesOf, h.lookup_mem hp]
  rfl

theorem Shows.mem_iff (h : Shows P dir parts) {date : δ} {index : ℕ} :
    fileName P date index ∈ dir ↔ ∃ p ∈ parts, p.date = date ∧ p.index = index := by
  rw [← AList.lookup_isSome, Option.isSome_iff_exists]
  constructor
  · rintro ⟨f, hf⟩
    obtain ⟨p, hp, hname, -⟩ := (h _ f).mp hf
    exact ⟨p, hp, fileName_inj.mp hname⟩
  · rintro ⟨p, hp, rfl, rfl⟩
    exact ⟨p.file, h.lookup_mem hp⟩

end Files

section Order

variable [LinearOrder δ]

def Ordered (parts : List (Part δ)) : Prop := parts.Pairwise Part.Before

theorem Part.Before.name_ne (h : Part.Before p q) : p.name P ≠ q.name P := by
  intro hname
  obtain ⟨hdate, hindex⟩ := fileName_inj.mp hname
  rcases h.place with hlt | ⟨-, hlt, -⟩
  · exact absurd hdate (ne_of_lt hlt)
  · exact absurd hindex (Nat.ne_of_lt hlt)

theorem Ordered.nodup_names (h : Ordered parts) : (parts.map (Part.name P)).Nodup := by
  rw [List.Nodup, List.pairwise_map]
  exact h.imp fun hbefore => hbefore.name_ne

theorem Ordered.nodup_times (h : Ordered parts) : (parts.map Part.time).Nodup := by
  rw [List.Nodup, List.pairwise_map]
  exact h.imp fun hbefore => Nat.ne_of_lt hbefore.time

theorem Ordered.drop (h : Ordered parts) (n : ℕ) : Ordered (parts.drop n) :=
  List.Pairwise.sublist (List.drop_sublist n parts) h

theorem Ordered.concat (h : Ordered parts) (hq : ∀ p ∈ parts, Part.Before p q) :
    Ordered (parts ++ [q]) := by
  apply List.pairwise_append.mpr
  refine ⟨h, List.pairwise_singleton _ _, fun p hp r hr => ?_⟩
  rw [List.mem_singleton.mp hr]
  exact hq p hp

/-- By their times the files come in the order of the log. -/
theorem sorted_names (hshows : Shows P dir parts) (hordered : Ordered parts) :
    (P.listFiles dir).mergeSort (fun a b => lastModified dir a ≤ lastModified dir b) =
      parts.map (Part.name P) := by
  have hperm : (P.listFiles dir).Perm (parts.map (Part.name P)) :=
    (P.listFiles_perm dir).trans (hshows.keys_perm hordered.nodup_names)
  have hsorted := (List.mergeSort_perm (P.listFiles dir)
    (fun a b => lastModified dir a ≤ lastModified dir b)).trans hperm
  have hanti : ∀ a b, a ∈ (P.listFiles dir).mergeSort
      (fun a b => lastModified dir a ≤ lastModified dir b) → b ∈ parts.map (Part.name P) →
      decide (lastModified dir a ≤ lastModified dir b) = true →
      decide (lastModified dir b ≤ lastModified dir a) = true → a = b := by
    intro a b ha hb hab hba
    obtain ⟨p, hp, rfl⟩ := List.mem_map.mp (hsorted.subset ha)
    obtain ⟨q, hq, rfl⟩ := List.mem_map.mp hb
    rw [hshows.lastModified_eq hp, hshows.lastModified_eq hq, decide_eq_true_eq] at hab hba
    have hpq := List.inj_on_of_nodup_map hordered.nodup_times hp hq (le_antisymm hab hba)
    rw [hpq]
  have hpairwise : ((P.listFiles dir).mergeSort
      (fun a b => lastModified dir a ≤ lastModified dir b)).Pairwise
        fun a b => decide (lastModified dir a ≤ lastModified dir b) = true := by
    apply List.pairwise_mergeSort
    · intro a b c hab hbc
      rw [decide_eq_true_eq] at hab hbc ⊢
      exact Nat.le_trans hab hbc
    · intro a b
      rw [Bool.or_eq_true, decide_eq_true_eq, decide_eq_true_eq]
      exact le_total _ _
  have hparts : (parts.map (Part.name P)).Pairwise
      fun a b => decide (lastModified dir a ≤ lastModified dir b) = true := by
    rw [List.pairwise_map]
    apply List.Pairwise.imp_of_mem _ hordered
    intro p q hp hq hbefore
    rw [hshows.lastModified_eq hp, hshows.lastModified_eq hq, decide_eq_true_eq]
    exact Nat.le_of_lt hbefore.time
  exact List.Perm.eq_of_pairwise hanti hpairwise hparts hsorted

end Order

/-! The loops. -/

section Loops

theorem search_eq {date : δ} {r rounds i : ℕ} (hi : i ≤ r) (hrounds : r - i ≤ rounds)
    (hfull : ∀ j, i ≤ j → j < r → isFull dir (fileName P date j) = true)
    (hend : isFull dir (fileName P date r) = false) : search P dir date rounds i = r := by
  induction rounds generalizing i with
  | zero =>
    rw [search]
    omega
  | succ rounds ih =>
    rw [search]
    rcases Nat.lt_or_ge i r with hlt | hge
    · rw [if_pos (hfull i (Nat.le_refl i) hlt)]
      apply ih
      · omega
      · omega
      · intro j hj hjr
        exact hfull j (by omega) hjr
    · obtain rfl : i = r := by omega
      rw [hend]
      rfl

/-- One round: the part numbered `j` gets the number `j - d`. -/
theorem renumber_shows {date : δ} {d j : ℕ} (hd : 0 < d) (hj : d < j) {done more : List (Part δ)}
    {p : Part δ} (hshows : Shows P dir (done ++ p :: more)) (hdate : p.date = date)
    (hp : p.index = j) (hother : ∀ r ∈ done ++ more, r.index < j - d ∨ j < r.index) :
    Shows P (renameTo dir (fileName P date j) (fileName P date (j - d)))
      ((done ++ [p.shift d]) ++ more) := by
  have hname : p.name P = fileName P date j := by rw [Part.name, hdate, hp]
  have hshift : (p.shift d).name P = fileName P date (j - d) := by
    rw [Part.name, Part.shift, hdate, hp]
  have hfront : Shows P dir (p :: (done ++ more)) := by
    apply hshows.congr
    intro q
    simp only [List.mem_cons, List.mem_append]
    tauto
  have hold : ∀ r ∈ done ++ more, r.name P ≠ p.name P := by
    intro r hr heq
    rw [hname] at heq
    have hr' := (fileName_inj.mp heq).2
    have := hother r hr
    omega
  have hnew : ∀ r ∈ done ++ more, r.name P ≠ (p.shift d).name P := by
    intro r hr heq
    rw [hshift] at heq
    have hr' := (fileName_inj.mp heq).2
    have := hother r hr
    omega
  have hrename := hfront.renameTo (q := p.shift d) rfl hold hnew
  rw [hname, hshift] at hrename
  apply hrename.congr
  intro q
  simp only [List.mem_cons, List.mem_append, List.not_mem_nil, or_false]
  tauto

/-- The loop has numbered the parts in `done` anew and goes on with those from `j`. -/
theorem fixFrom_shows {date : δ} {d : ℕ} (hd : 0 < d) (done : List (Part δ)) {more : List (Part δ)}
    {rounds j : ℕ} (hshows : Shows P dir (done ++ more)) (hj : d < j)
    (hrounds : more.length ≤ rounds)
    (hdone : ∀ p ∈ done, p.date = date ∧ p.index < j - d)
    (hmore : ∀ p ∈ more, p.date = date)
    (hindex : more.map Part.index = List.range' j more.length) :
    Shows P (fixFrom P date d rounds dir j).1 (done ++ more.map (Part.shift d)) ∧
      (fixFrom P date d rounds dir j).2 = j + more.length - d := by
  induction more generalizing dir done rounds j with
  | nil =>
    have hmissing : dir.lookup (fileName P date j) = none := by
      apply hshows.lookup_none
      intro p hp heq
      rw [List.append_nil] at hp
      have hindex := (fileName_inj.mp heq).2
      have hless := (hdone p hp).2
      omega
    cases rounds with
    | zero => exact ⟨hshows, rfl⟩
    | succ rounds =>
      rw [fixFrom, hmissing]
      exact ⟨hshows, rfl⟩
  | cons p more ih =>
    obtain ⟨rounds, rfl⟩ : ∃ n, rounds = n + 1 :=
      ⟨rounds - 1, by rw [List.length_cons] at hrounds; omega⟩
    rw [List.map_cons, List.length_cons, List.range'_succ, List.cons.injEq] at hindex
    obtain ⟨hp, hrest⟩ := hindex
    have hdate : p.date = date := hmore p (List.mem_cons_self ..)
    have hname : p.name P = fileName P date j := by rw [Part.name, hdate, hp]
    have hlater : ∀ q ∈ more, j + 1 ≤ q.index := by
      intro q hq
      have hmem : q.index ∈ List.range' (j + 1) more.length := by
        rw [← hrest]
        exact List.mem_map_of_mem hq
      exact (List.mem_range'_1.mp hmem).1
    have hother : ∀ r ∈ done ++ more, r.index < j - d ∨ j < r.index := by
      intro r hr
      rcases List.mem_append.mp hr with hr | hr
      · exact Or.inl (hdone r hr).2
      · exact Or.inr (hlater r hr)
    have hnext := renumber_shows hd hj hshows hdate hp hother
    have hexists : (dir.lookup (fileName P date j)).isSome = true := by
      rw [← hname, hshows.lookup_mem (by simp)]
      rfl
    rw [fixFrom, if_pos hexists]
    have hfewer : more.length ≤ rounds := by
      rw [List.length_cons] at hrounds
      omega
    obtain ⟨hend, hnumber⟩ := ih _ hnext (by omega) hfewer
      (by
        intro q hq
        rcases List.mem_append.mp hq with hq | hq
        · obtain ⟨hqd, hqi⟩ := hdone q hq
          exact ⟨hqd, by omega⟩
        · rw [List.mem_singleton.mp hq]
          exact ⟨hdate, by simp only [Part.shift, hp]; omega⟩)
      (fun q hq => hmore q (List.mem_cons_of_mem p hq)) hrest
    rw [List.append_assoc] at hend
    refine ⟨hend, ?_⟩
    rw [hnumber, List.length_cons]
    omega

variable [LinearOrder δ]

theorem deleteFiles_shows (today : δ) {gone kept : List (Part δ)} (n : ℕ)
    (hshows : Shows P dir (gone ++ kept)) (hnodup : ((gone ++ kept).map (Part.name P)).Nodup) :
    Shows P (deleteFiles P today (gone.map (Part.name P)) dir n).1 kept ∧
      (deleteFiles P today (gone.map (Part.name P)) dir n).2 =
        n + gone.countP fun p => p.date = today := by
  induction gone generalizing dir n with
  | nil => exact ⟨hshows, rfl⟩
  | cons p gone ih =>
    rw [List.cons_append, List.map_cons, List.nodup_cons] at hnodup
    have hne : ∀ q ∈ gone ++ kept, q.name P ≠ p.name P := by
      intro q hq heq
      exact hnodup.1 (heq ▸ List.mem_map_of_mem hq)
    obtain ⟨hkept, hcount⟩ := ih (if P.format today <+: p.name P then n + 1 else n)
      (hshows.erase hne) hnodup.2
    refine ⟨hkept, ?_⟩
    have hdate : P.format today <+: p.name P ↔ p.date = today := fileName_prefix
    rw [List.map_cons, deleteFiles, hcount, List.countP_cons]
    by_cases hp : p.date = today
    · rw [if_pos (hdate.mpr hp)]
      simp only [hp, decide_true, if_true]
      omega
    · rw [if_neg fun h => hp (hdate.mp h)]
      simp [hp]

end Loops

/-! The clearing of outdated files. -/

/-- What is left of the log when there are too many files. -/
def cleared (parts : List (Part δ)) : List (Part δ) := parts.drop (parts.length - MAX_FILE_SUM)

theorem records_shift (d : ℕ) (parts : List (Part δ)) :
    records (parts.map (Part.shift d)) = records parts := by
  rw [records, List.flatMap_map]
  rfl

theorem flatten_records (parts : List (Part δ)) :
    (records parts).flatten = parts.flatMap Part.bytes := by
  induction parts with
  | nil => rfl
  | cons p parts ih =>
    rw [records, List.flatMap_cons, List.flatten_append, List.flatMap_cons, ← ih]
    rfl

theorem records_cleared (parts : List (Part δ)) :
    records parts =
      records (parts.take (parts.length - MAX_FILE_SUM)) ++ records (cleared parts) := by
  rw [records, records, records, ← List.flatMap_append, cleared, List.take_append_drop]

section Handled

variable [LinearOrder δ] {today : δ}

theorem length_listFiles (hshows : Shows P dir parts) (hordered : Ordered parts) :
    (P.listFiles dir).length = parts.length := by
  rw [((P.listFiles_perm dir).trans (hshows.keys_perm hordered.nodup_names)).length_eq,
    List.length_map]

theorem handleOutdatedFiles_few (hshows : Shows P dir parts) (hordered : Ordered parts)
    (hfew : parts.length ≤ MAX_FILE_SUM + MAX_FILE_SUM_CACHE) :
    handleOutdatedFiles P dir today = (dir, none) := by
  have hnot : ¬parts.length > MAX_FILE_SUM + MAX_FILE_SUM_CACHE := by omega
  simp only [handleOutdatedFiles, length_listFiles hshows hordered, if_neg hnot]

theorem deleted_shows (today : δ) (hshows : Shows P dir parts) (hordered : Ordered parts) :
    Shows P (deleteFiles P today ((parts.map (Part.name P)).take (parts.length - MAX_FILE_SUM))
        dir 0).1 (cleared parts) ∧
      (deleteFiles P today ((parts.map (Part.name P)).take (parts.length - MAX_FILE_SUM)) dir 0).2 =
        (parts.take (parts.length - MAX_FILE_SUM)).countP fun p => p.date = today := by
  have hall : parts.take (parts.length - MAX_FILE_SUM) ++ cleared parts = parts :=
    List.take_append_drop _ _
  rw [← hall] at hshows
  have hnodup := hordered.nodup_names (P := P)
  rw [← hall] at hnodup
  have h := deleteFiles_shows today 0 hshows hnodup
  rw [Nat.zero_add, List.map_take] at h
  exact h

theorem handleOutdatedFiles_old (hshows : Shows P dir parts) (hordered : Ordered parts)
    (hmany : MAX_FILE_SUM + MAX_FILE_SUM_CACHE < parts.length)
    (hold : ∀ p ∈ parts.take (parts.length - MAX_FILE_SUM), p.date ≠ today) :
    ∃ dir', handleOutdatedFiles P dir today = (dir', none) ∧ Shows P dir' (cleared parts) := by
  obtain ⟨hleft, hcount⟩ := deleted_shows today hshows hordered
  have hzero : ((parts.take (parts.length - MAX_FILE_SUM)).countP fun p => p.date = today) = 0 := by
    rw [List.countP_eq_zero]
    intro p hp
    simpa using hold p hp
  refine ⟨_, ?_, hleft⟩
  simp only [handleOutdatedFiles, length_listFiles hshows hordered, sorted_names hshows hordered,
    gt_iff_lt, if_pos hmany, hcount, hzero, Nat.lt_irrefl, if_false]

theorem handleOutdatedFiles_today {old cur : List (Part δ)} (hshows : Shows P dir (old ++ cur))
    (hordered : Ordered (old ++ cur))
    (hmany : MAX_FILE_SUM + MAX_FILE_SUM_CACHE < (old ++ cur).length)
    (hold : ∀ p ∈ old, p.date ≠ today) (hcur : ∀ p ∈ cur, p.date = today)
    (hindex : cur.map Part.index = List.range' 1 cur.length) {d : ℕ} (hd : 0 < d)
    (hgone : (old ++ cur).length - MAX_FILE_SUM = old.length + d) :
    ∃ dir', handleOutdatedFiles P dir today =
        (dir', some (fileName P today (cur.length - d + 1))) ∧
      Shows P dir' ((cur.drop d).map (Part.shift d)) := by
  obtain ⟨hleft, hcount⟩ := deleted_shows today hshows hordered
  have hlen : d ≤ cur.length := by
    rw [List.length_append] at hgone
    omega
  have htake : ((old ++ cur).take ((old ++ cur).length - MAX_FILE_SUM)).countP
      (fun p => decide (p.date = today)) = d := by
    rw [hgone, List.take_length_add_append, List.countP_append,
      List.countP_eq_zero.mpr (by intro p hp; simpa using hold p hp), List.countP_eq_length.mpr
        (by intro p hp; simpa using hcur p (List.mem_of_mem_take hp)), List.length_take]
    omega
  have hdrop : cleared (old ++ cur) = cur.drop d := by
    rw [cleared, hgone, List.drop_length_add_append]
  rw [hdrop] at hleft
  have hsorted : Ordered (cur.drop d) := by
    rw [← hdrop]
    exact hordered.drop _
  have hrange : (cur.drop d).map Part.index = List.range' (d + 1) (cur.drop d).length := by
    rw [List.map_drop, hindex, List.drop_range', List.length_drop]
    congr 1
    omega
  have hkeys := (hleft.keys_perm hsorted.nodup_names).length_eq
  rw [List.length_map] at hkeys
  obtain ⟨hfixed, hnumber⟩ := fixFrom_shows hd [] hleft
    (Nat.lt_succ_self d) (Nat.le_of_eq hkeys.symm) (by simp)
    (fun p hp => hcur p (List.mem_of_mem_drop hp)) hrange
  refine ⟨_, ?_, hfixed⟩
  have hnonempty : ¬(P.format today = [] ∨ d = 0) := by
    rintro (h | h)
    · exact P.format_ne_nil today h
    · omega
  have hnext : d + 1 + (cur.length - d) - d = cur.length - d + 1 := by omega
  simp only [handleOutdatedFiles, length_listFiles hshows hordered, sorted_names hshows hordered,
    gt_iff_lt, if_pos hmany, hcount, htake, hd, if_true, fixFileList, if_neg hnonempty, hnumber,
    List.length_drop, hnext]

end Handled

/-! One call. -/

section Step

variable [LinearOrder δ]

/-- The parts of a date come last and are numbered from 1. -/
structure Split (d : δ) (old cur : List (Part δ)) : Prop where
  dated : ∀ p ∈ old, p.date < d
  current : ∀ p ∈ cur, p.date = d
  numbered : cur.map Part.index = List.range' 1 cur.length

theorem Split.advance {d e : δ} {old cur : List (Part δ)} (h : Split d old cur) (hde : d ≤ e) :
    ∃ old' cur', old ++ cur = old' ++ cur' ∧ Split e old' cur' := by
  rcases lt_or_eq_of_le hde with hlt | rfl
  · refine ⟨old ++ cur, [], (List.append_nil _).symm, ?_, by simp, rfl⟩
    intro p hp
    rcases List.mem_append.mp hp with hp | hp
    · exact lt_trans (h.dated p hp) hlt
    · rw [h.current p hp]
      exact hlt
  · exact ⟨old, cur, rfl, h⟩

theorem Split.index_le {d : δ} {old cur : List (Part δ)} (h : Split d old cur) {p : Part δ}
    (hp : p ∈ cur) : 1 ≤ p.index ∧ p.index ≤ cur.length := by
  have hmem : p.index ∈ List.range' 1 cur.length := by
    rw [← h.numbered]
    exact List.mem_map_of_mem hp
  have hrange := List.mem_range'_1.mp hmem
  omega

theorem Split.exists_index {d : δ} {old cur : List (Part δ)} (h : Split d old cur) {j : ℕ}
    (hj : 1 ≤ j) (hlen : j ≤ cur.length) : ∃ p ∈ cur, p.index = j := by
  apply List.mem_map.mp
  rw [h.numbered, List.mem_range'_1]
  omega

theorem Split.drop_numbered {e : δ} {old cur : List (Part δ)} (h : Split e old cur) (d : ℕ) :
    (cur.drop d).map Part.index = List.range' (1 + d) (cur.length - d) := by
  rw [List.map_drop, h.numbered, List.drop_range', Nat.mul_one]

theorem Split.drop_index {e : δ} {old cur : List (Part δ)} (h : Split e old cur) {d : ℕ}
    {p : Part δ} (hp : p ∈ cur.drop d) : d < p.index ∧ p.index ≤ cur.length := by
  have hmem : p.index ∈ List.range' (1 + d) (cur.length - d) := by
    rw [← h.drop_numbered]
    exact List.mem_map_of_mem hp
  have hin := List.mem_range'_1.mp hmem
  omega

/-- The parts after the first `d` of a date, numbered anew. -/
theorem Split.shift {e : δ} {old cur : List (Part δ)} (h : Split e old cur) (d : ℕ) :
    Split e [] ((cur.drop d).map (Part.shift d)) := by
  refine ⟨by simp, ?_, ?_⟩
  · intro p hp
    obtain ⟨q, hq, rfl⟩ := List.mem_map.mp hp
    exact h.current q (List.mem_of_mem_drop hq)
  · have hshift : (Part.index ∘ Part.shift d : Part δ → ℕ) = (· - d) ∘ Part.index := rfl
    rw [List.length_map, List.length_drop, List.map_map, hshift, ← List.map_map,
      h.drop_numbered, List.map_sub_range' (by omega), Nat.add_sub_cancel]

def begun (c : Call δ) (index : ℕ) : Part δ := ⟨c.date, index, [c.record], c.time⟩

structure Written (P : Platform δ) (dir : Directory) (parts : List (Part δ)) (c : Call δ)
    (parts' : List (Part δ)) : Prop where
  shows : Shows P dir parts'
  ordered : Ordered parts'
  few : parts'.length ≤ MAX_FILE_SUM + MAX_FILE_SUM_CACHE + 1
  split : ∃ old cur, parts' = old ++ cur ∧ Split c.today old cur
  times : ∀ p ∈ parts', p.time = c.time ∨ ∃ q ∈ parts, p.time = q.time
  lost : ∃ gone, records parts ++ [c.record] = gone ++ records parts'
  latest : records parts' ≠ []

variable {c : Call δ}

/-- The first part of a date that is not full is the one that the loop finds. -/
theorem search_current {old cur : List (Part δ)} (hshows : Shows P dir (old ++ cur))
    (hordered : Ordered (old ++ cur)) (hsplit : Split c.date old cur) {r : ℕ} (hr : 1 ≤ r)
    (hlen : r ≤ cur.length + 1) (hfull : ∀ p ∈ cur, p.index < r → p.IsFull)
    (hend : ∀ p ∈ cur, p.index = r → ¬p.IsFull) :
    search P dir c.date dir.keys.length 1 = r := by
  have hname : ∀ p ∈ cur, p.name P = fileName P c.date p.index := by
    intro p hp
    rw [Part.name, hsplit.current p hp]
  apply search_eq hr
  · have hkeys := (hshows.keys_perm hordered.nodup_names).length_eq
    rw [List.length_map, List.length_append] at hkeys
    omega
  · intro j hj hjr
    obtain ⟨p, hp, rfl⟩ := hsplit.exists_index hj (by omega)
    rw [← hname p hp, hshows.isFull_iff (List.mem_append_right old hp)]
    exact hfull p hp hjr
  · rcases Nat.lt_or_ge cur.length r with hlast | hin
    · have hmissing : dir.lookup (fileName P c.date r) = none := by
        apply hshows.lookup_none
        intro p hp heq
        obtain ⟨hdate, hindex⟩ := fileName_inj.mp heq
        rcases List.mem_append.mp hp with hp | hp
        · exact absurd hdate (ne_of_lt (hsplit.dated p hp))
        · have := hsplit.index_le hp
          omega
      rw [isFull, hmissing]
    · obtain ⟨p, hp, rfl⟩ := hsplit.exists_index hr hin
      rw [← hname p hp, Bool.eq_false_iff, Ne, hshows.isFull_iff (List.mem_append_right old hp)]
      exact hend p hp rfl

/-- The last part keeps its date and its number. -/
theorem Split.replace_last {d : δ} {old front : List (Part δ)} {last q : Part δ}
    (h : Split d old (front ++ [last])) (hdate : q.date = last.date)
    (hindex : q.index = last.index) : Split d old (front ++ [q]) := by
  refine ⟨h.dated, ?_, ?_⟩
  · intro p hp
    rcases List.mem_append.mp hp with hp | hp
    · exact h.current p (List.mem_append_left _ hp)
    · rw [List.mem_singleton.mp hp, hdate]
      exact h.current last (by simp)
  · simpa [hindex] using h.numbered

theorem Split.last_index {d : δ} {old front : List (Part δ)} {last : Part δ}
    (h : Split d old (front ++ [last])) : last.index = front.length + 1 := by
  have hnumbered := h.numbered
  rw [List.map_append, List.length_append, List.length_singleton, List.range'_1_concat,
    List.map_singleton] at hnumbered
  have htail := (List.append_inj' hnumbered rfl).2
  rw [List.cons.injEq] at htail
  omega

theorem Split.before_last {d : δ} {old front : List (Part δ)} {last p : Part δ}
    (h : Split d old (front ++ [last])) (hp : p ∈ front) (hbefore : Part.Before p last) :
    p.index < last.index ∧ p.IsFull := by
  rcases hbefore.place with hlt | ⟨-, hlt, hfull⟩
  · rw [h.current p (List.mem_append_left _ hp), h.current last (by simp)] at hlt
    exact absurd hlt (lt_irrefl _)
  · exact ⟨hlt, hfull⟩

/-- The loop stops at the last part of the date if that has room. -/
theorem search_last {old front : List (Part δ)} {last : Part δ}
    (hshows : Shows P dir (old ++ (front ++ [last])))
    (hordered : Ordered (old ++ (front ++ [last])))
    (hsplit : Split c.date old (front ++ [last]))
    (hbefore : ∀ p ∈ front, Part.Before p last) (hroom : ¬last.IsFull) :
    search P dir c.date dir.keys.length 1 = last.index := by
  have hindex := hsplit.last_index
  apply search_current hshows hordered hsplit
  · omega
  · rw [List.length_append, List.length_singleton]
    omega
  · intro p hp hless
    rcases List.mem_append.mp hp with hp | hp
    · exact (hsplit.before_last hp (hbefore p hp)).2
    · rw [List.mem_singleton.mp hp] at hless
      exact absurd hless (Nat.lt_irrefl _)
  · intro p hp heq
    rcases List.mem_append.mp hp with hp | hp
    · exact absurd heq (Nat.ne_of_lt (hsplit.before_last hp (hbefore p hp)).1)
    · rw [List.mem_singleton.mp hp]
      exact hroom

/-- The last part of the date has room for the record. -/
theorem write_last {old front : List (Part δ)} {last : Part δ}
    (hshows : Shows P dir (old ++ (front ++ [last])))
    (hordered : Ordered (old ++ (front ++ [last])))
    (hfew : (old ++ (front ++ [last])).length ≤ MAX_FILE_SUM + MAX_FILE_SUM_CACHE + 1)
    (hsplit : Split c.date old (front ++ [last])) (hlater : c.date ≤ c.today)
    (htime : ∀ p ∈ old ++ (front ++ [last]), p.time < c.time) (hroom : ¬last.IsFull) :
    Written P (write P dir c).1 (old ++ (front ++ [last])) c
      (old ++ (front ++ [last.add c.record c.time])) := by
  have hordered' := hordered
  rw [← List.append_assoc] at hordered'
  obtain ⟨hfront, -, hbefore⟩ := List.pairwise_append.mp hordered'
  have hlast : ∀ p ∈ old ++ front, Part.Before p last :=
    fun p hp => hbefore p hp last (List.mem_singleton_self last)
  have hname : last.name P = fileName P c.date last.index := by
    rw [Part.name, hsplit.current last (by simp)]
  have hsearch := search_last hshows hordered hsplit
    (fun p hp => hlast p (List.mem_append_right old hp)) hroom
  have hlookup : dir.lookup (last.name P) = some last.file :=
    hshows.lookup_mem (by simp)
  have hwrite : (write P dir c).1 = dir.insert (last.name P) (last.add c.record c.time).file := by
    rw [write_found (by rw [hsearch, hname]) hlookup]
    simp [Part.add, Part.file, Part.bytes]
  have hmem : ∀ r, ∀ p, p ∈ old ++ (front ++ [r]) ↔ p ∈ r :: (old ++ front) := by
    intro r p
    simp only [List.mem_append, List.mem_cons, List.not_mem_nil, or_false]
    tauto
  have hadd : ∀ p ∈ old ++ front, Part.Before p (last.add c.record c.time) := by
    intro p hp
    exact ⟨htime p (by rw [← List.append_assoc]; exact List.mem_append_left _ hp),
      (hlast p hp).place⟩
  constructor
  · rw [hwrite]
    have hreplace := (hshows.congr fun p => (hmem last p).symm).replace
      (q := last.add c.record c.time) (fun r hr => (hlast r hr).name_ne) rfl
    exact hreplace.congr (hmem _)
  · rw [← List.append_assoc]
    exact Ordered.concat hfront hadd
  · simpa using hfew
  · have hsplit' : Split c.date old (front ++ [last.add c.record c.time]) :=
      hsplit.replace_last rfl rfl
    exact hsplit'.advance hlater
  · intro p hp
    rcases List.mem_cons.mp ((hmem _ p).mp hp) with rfl | hp
    · exact Or.inl rfl
    · exact Or.inr ⟨p, by rw [← List.append_assoc]; exact List.mem_append_left _ hp, rfl⟩
  · exact ⟨[], by simp [records, Part.add]⟩
  · simp [records, Part.add]

theorem Split.concat {old cur : List (Part δ)} (h : Split c.date old cur) :
    Split c.date old (cur ++ [begun c (cur.length + 1)]) := by
  refine ⟨h.dated, ?_, ?_⟩
  · intro p hp
    rcases List.mem_append.mp hp with hp | hp
    · exact h.current p hp
    · rw [List.mem_singleton.mp hp]
      rfl
  · rw [List.map_append, h.numbered, List.length_append, List.length_singleton,
      List.range'_1_concat, Nat.add_comm 1]
    rfl

/-- A new part after those that are left. -/
theorem written_begun {cleared : Directory} {index : ℕ} {gone : List Bytes}
    (hshows : Shows P cleared rest) (hordered : Ordered rest)
    (hfew : rest.length ≤ MAX_FILE_SUM + MAX_FILE_SUM_CACHE)
    (hbefore : ∀ p ∈ rest, Part.Before p (begun c index))
    (hwrite : write P dir c = (cleared.insert (fileName P c.date index) ⟨c.record, c.time⟩, true))
    (hsplit : ∃ old cur, rest ++ [begun c index] = old ++ cur ∧ Split c.today old cur)
    (htimes : ∀ p ∈ rest, ∃ q ∈ parts, p.time = q.time)
    (hlost : records parts = gone ++ records rest) :
    Written P (write P dir c).1 parts c (rest ++ [begun c index]) := by
  constructor
  · have hinsert := hshows.insert (q := begun c index) fun p hp => (hbefore p hp).name_ne
    have hfile : (begun c index).file = ⟨c.record, c.time⟩ := by
      simp [Part.file, Part.bytes, begun]
    rw [hwrite]
    rw [hfile] at hinsert
    apply hinsert.congr
    intro p
    simp only [List.mem_append, List.mem_cons, List.not_mem_nil, or_false]
    tauto
  · exact hordered.concat hbefore
  · rw [List.length_append, List.length_singleton]
    omega
  · exact hsplit
  · intro p hp
    rcases List.mem_append.mp hp with hp | hp
    · exact Or.inr (htimes p hp)
    · rw [List.mem_singleton.mp hp]
      exact Or.inl rfl
  · refine ⟨gone, ?_⟩
    rw [hlost]
    simp [records, begun]
  · simp [records, begun]

theorem Ordered.shift {d : ℕ} (h : Ordered parts) (hindex : ∀ p ∈ parts, d < p.index) :
    Ordered (parts.map (Part.shift d)) := by
  rw [Ordered, List.pairwise_map]
  apply List.Pairwise.imp_of_mem _ h
  intro p q hp hq hbefore
  refine ⟨hbefore.time, hbefore.place.imp_right ?_⟩
  rintro ⟨hdate, hlt, hfull⟩
  have := hindex p hp
  have := hindex q hq
  exact ⟨hdate, by simp only [Part.shift]; omega, hfull⟩

/-! All parts of the date are full, so that a new one is begun. -/

section Full

variable {old cur : List (Part δ)}

theorem before_begun (hsplit : Split c.date old cur) (htime : ∀ p ∈ old ++ cur, p.time < c.time)
    (hfull : ∀ p ∈ cur, p.IsFull) :
    ∀ p ∈ old ++ cur, Part.Before p (begun c (cur.length + 1)) := by
  intro p hp
  refine ⟨htime p hp, ?_⟩
  rcases List.mem_append.mp hp with hp | hp
  · exact Or.inl (hsplit.dated p hp)
  · exact Or.inr ⟨hsplit.current p hp, Nat.lt_succ_of_le (hsplit.index_le hp).2, hfull p hp⟩

theorem search_full (hshows : Shows P dir (old ++ cur)) (hordered : Ordered (old ++ cur))
    (hsplit : Split c.date old cur) (hfull : ∀ p ∈ cur, p.IsFull) :
    search P dir c.date dir.keys.length 1 = cur.length + 1 := by
  apply search_current hshows hordered hsplit (by omega) (Nat.le_refl _)
  · exact fun p hp _ => hfull p hp
  · intro p hp heq
    have := hsplit.index_le hp
    omega

/-- The number after the last part is free, so the call handles the outdated files and begins
a file. -/
theorem write_next (hshows : Shows P dir (old ++ cur)) (hordered : Ordered (old ++ cur))
    (hsplit : Split c.date old cur) (htime : ∀ p ∈ old ++ cur, p.time < c.time)
    (hfull : ∀ p ∈ cur, p.IsFull) {dir' : Directory} {renumbered : Option Name}
    (hhandled : handleOutdatedFiles P dir c.today = (dir', renumbered))
    (hfree : dir'.lookup (renumbered.getD (fileName P c.date (cur.length + 1))) = none) :
    write P dir c = (dir'.insert (renumbered.getD (fileName P c.date (cur.length + 1)))
      ⟨c.record, c.time⟩, true) := by
  have hmissing : dir.lookup (fileName P c.date (cur.length + 1)) = none :=
    hshows.lookup_none fun p hp => (before_begun hsplit htime hfull p hp).name_ne
  apply write_begun _ hmissing hhandled hfree
  rw [search_full hshows hordered hsplit hfull]

/-- There is room for one more file. -/
theorem write_room (hshows : Shows P dir (old ++ cur)) (hordered : Ordered (old ++ cur))
    (hfew : (old ++ cur).length ≤ MAX_FILE_SUM + MAX_FILE_SUM_CACHE)
    (hsplit : Split c.date old cur) (hlater : c.date ≤ c.today)
    (htime : ∀ p ∈ old ++ cur, p.time < c.time) (hfull : ∀ p ∈ cur, p.IsFull) :
    Written P (write P dir c).1 (old ++ cur) c (old ++ cur ++ [begun c (cur.length + 1)]) := by
  have hnew := before_begun hsplit htime hfull
  have hfree : dir.lookup (fileName P c.date (cur.length + 1)) = none :=
    hshows.lookup_none fun p hp => (hnew p hp).name_ne
  apply written_begun hshows hordered hfew hnew (write_next hshows hordered hsplit htime hfull
    (handleOutdatedFiles_few hshows hordered hfew) hfree)
  · rw [List.append_assoc]
    exact hsplit.concat.advance hlater
  · exact fun p hp => ⟨p, hp, rfl⟩
  · exact (List.nil_append _).symm

/-- The files deleted are all older than today. -/
theorem write_old (hshows : Shows P dir (old ++ cur)) (hordered : Ordered (old ++ cur))
    (hmany : MAX_FILE_SUM + MAX_FILE_SUM_CACHE < (old ++ cur).length)
    (hfew : (old ++ cur).length ≤ MAX_FILE_SUM + MAX_FILE_SUM_CACHE + 1)
    (hsplit : Split c.date old cur) (hlater : c.date ≤ c.today)
    (htime : ∀ p ∈ old ++ cur, p.time < c.time) (hfull : ∀ p ∈ cur, p.IsFull)
    (hold : ∀ p ∈ (old ++ cur).take ((old ++ cur).length - MAX_FILE_SUM), p.date ≠ c.today) :
    Written P (write P dir c).1 (old ++ cur) c
      (cleared (old ++ cur) ++ [begun c (cur.length + 1)]) := by
  have hnew := before_begun hsplit htime hfull
  have hsub : ∀ p ∈ cleared (old ++ cur), p ∈ old ++ cur := fun p hp => List.mem_of_mem_drop hp
  obtain ⟨dir', hhandled, hshows'⟩ := handleOutdatedFiles_old hshows hordered hmany hold
  have hfree : dir'.lookup (fileName P c.date (cur.length + 1)) = none :=
    hshows'.lookup_none fun p hp => (hnew p (hsub p hp)).name_ne
  apply written_begun hshows' (hordered.drop _) _ (fun p hp => hnew p (hsub p hp))
    (write_next hshows hordered hsplit htime hfull hhandled hfree)
  · rcases lt_or_eq_of_le hlater with hlt | heq
    · refine ⟨cleared (old ++ cur) ++ [begun c (cur.length + 1)], [],
        (List.append_nil _).symm, ?_, by simp, rfl⟩
      intro p hp
      rcases List.mem_append.mp hp with hp | hp
      · rcases List.mem_append.mp (hsub p hp) with hp | hp
        · exact lt_trans (hsplit.dated p hp) hlt
        · rw [hsplit.current p hp]
          exact hlt
      · rw [List.mem_singleton.mp hp]
        exact hlt
    · have hgone : (old ++ cur).length - MAX_FILE_SUM ≤ old.length := by
        by_contra hbeyond
        cases cur with
        | nil => simp at hbeyond
        | cons p cur =>
          apply hold p _ (by rw [hsplit.current p (List.mem_cons_self ..), heq])
          obtain ⟨n, hn⟩ : ∃ n, (old ++ p :: cur).length - MAX_FILE_SUM = old.length + (n + 1) :=
            ⟨(old ++ p :: cur).length - MAX_FILE_SUM - old.length - 1, by omega⟩
          rw [hn, List.take_length_add_append, List.take_succ_cons]
          exact List.mem_append_right old (List.mem_cons_self ..)
      rw [cleared, List.drop_append_of_le_length hgone, List.append_assoc, ← heq]
      refine ⟨_, _, rfl, fun p hp => ?_, hsplit.concat.current, hsplit.concat.numbered⟩
      exact hsplit.dated p (List.mem_of_mem_drop hp)
  · exact fun p hp => ⟨p, hsub p hp, rfl⟩
  · exact records_cleared _
  · rw [cleared, List.length_drop]
    have hsum : MAX_FILE_SUM_CACHE = 30 := rfl
    omega

/-- All older files are deleted and some of today's; the others are numbered anew. -/
theorem write_today (hshows : Shows P dir (old ++ cur)) (hordered : Ordered (old ++ cur))
    (hmany : MAX_FILE_SUM + MAX_FILE_SUM_CACHE < (old ++ cur).length)
    (hfew : (old ++ cur).length ≤ MAX_FILE_SUM + MAX_FILE_SUM_CACHE + 1)
    (hsplit : Split c.date old cur) (hsame : c.date = c.today)
    (htime : ∀ p ∈ old ++ cur, p.time < c.time) (hfull : ∀ p ∈ cur, p.IsFull) {d : ℕ} (hd : 0 < d)
    (hgone : (old ++ cur).length - MAX_FILE_SUM = old.length + d) :
    Written P (write P dir c).1 (old ++ cur) c
      ((cur.drop d).map (Part.shift d) ++ [begun c (cur.length - d + 1)]) := by
  have hdropped : cleared (old ++ cur) = cur.drop d := by
    rw [cleared, hgone, List.drop_length_add_append]
  have hlen : ((cur.drop d).map (Part.shift d)).length = cur.length - d := by
    rw [List.length_map, List.length_drop]
  have hordered' : Ordered ((cur.drop d).map (Part.shift d)) := by
    rw [← hdropped]
    apply (hordered.drop _).shift
    rw [← cleared, hdropped]
    exact fun p hp => (hsplit.drop_index hp).1
  have hcur : ∀ p ∈ cur, p.date = c.today := fun p hp => hsame ▸ hsplit.current p hp
  have hold : ∀ p ∈ old, p.date ≠ c.today := fun p hp => ne_of_lt (hsame ▸ hsplit.dated p hp)
  have hnew : ∀ p ∈ (cur.drop d).map (Part.shift d),
      Part.Before p (begun c (cur.length - d + 1)) := by
    intro p hp
    obtain ⟨q, hq, rfl⟩ := List.mem_map.mp hp
    have hmem : q ∈ cur := List.mem_of_mem_drop hq
    have hin := hsplit.drop_index hq
    refine ⟨htime q (List.mem_append_right old hmem), Or.inr ⟨hsplit.current q hmem, ?_,
      hfull q hmem⟩⟩
    simp only [Part.shift, begun]
    omega
  obtain ⟨dir', hhandled, hshows'⟩ := handleOutdatedFiles_today hshows hordered hmany hold hcur
    hsplit.numbered hd hgone
  have hfree : dir'.lookup (fileName P c.date (cur.length - d + 1)) = none :=
    hshows'.lookup_none fun p hp => (hnew p hp).name_ne
  have htoday : fileName P c.today (cur.length - d + 1) =
      fileName P c.date (cur.length - d + 1) := by
    rw [hsame]
  have hwrite : write P dir c =
      (dir'.insert (fileName P c.date (cur.length - d + 1)) ⟨c.record, c.time⟩, true) := by
    rw [← htoday] at hfree ⊢
    exact write_next hshows hordered hsplit htime hfull hhandled hfree
  apply written_begun hshows' hordered' _ hnew hwrite
  · have hconcat := (hsplit.shift d).concat
    rw [hlen] at hconcat
    exact ⟨[], _, rfl, hsame ▸ hconcat⟩
  · intro p hp
    obtain ⟨q, hq, rfl⟩ := List.mem_map.mp hp
    exact ⟨q, List.mem_append_right old (List.mem_of_mem_drop hq), rfl⟩
  · rw [records_cleared (old ++ cur), hdropped]
    rw [records_shift]
  · rw [hlen]
    rw [List.length_append] at hfew
    have hsum : MAX_FILE_SUM_CACHE = 30 := rfl
    omega

theorem write_full (hshows : Shows P dir (old ++ cur)) (hordered : Ordered (old ++ cur))
    (hfew : (old ++ cur).length ≤ MAX_FILE_SUM + MAX_FILE_SUM_CACHE + 1)
    (hsplit : Split c.date old cur) (hlater : c.date ≤ c.today)
    (htime : ∀ p ∈ old ++ cur, p.time < c.time) (hfull : ∀ p ∈ cur, p.IsFull) :
    ∃ parts', Written P (write P dir c).1 (old ++ cur) c parts' := by
  rcases Nat.lt_or_ge (MAX_FILE_SUM + MAX_FILE_SUM_CACHE) (old ++ cur).length with hmany | hroom
  · by_cases hold : ∀ p ∈ (old ++ cur).take ((old ++ cur).length - MAX_FILE_SUM), p.date ≠ c.today
    · exact ⟨_, write_old hshows hordered hmany hfew hsplit hlater htime hfull hold⟩
    · simp only [not_forall, not_not] at hold
      obtain ⟨p, hp, hdate⟩ := hold
      have hsame : c.date = c.today := by
        apply le_antisymm hlater
        rw [← hdate]
        rcases List.mem_append.mp (List.mem_of_mem_take hp) with hp | hp
        · exact le_of_lt (hsplit.dated p hp)
        · exact le_of_eq (hsplit.current p hp)
      have hbeyond : old.length < (old ++ cur).length - MAX_FILE_SUM := by
        by_contra hwithin
        rw [List.take_append_of_le_length (Nat.le_of_not_lt hwithin)] at hp
        have hlt := hsplit.dated p (List.mem_of_mem_take hp)
        rw [hdate, hsame] at hlt
        exact absurd hlt (lt_irrefl _)
      obtain ⟨d, hd⟩ := Nat.exists_eq_add_of_lt hbeyond
      exact ⟨_, write_today hshows hordered hmany hfew hsplit hsame htime hfull (Nat.succ_pos d) hd⟩
  · exact ⟨_, write_room hshows hordered hroom hsplit hlater htime hfull⟩

end Full

end Step

/-! All calls. -/

section Run

variable [LinearOrder δ]

/-- A call leaves an ordered log that has lost records at the front only. -/
theorem write_written {c : Call δ} {old cur : List (Part δ)} (hshows : Shows P dir (old ++ cur))
    (hordered : Ordered (old ++ cur))
    (hfew : (old ++ cur).length ≤ MAX_FILE_SUM + MAX_FILE_SUM_CACHE + 1)
    (hsplit : Split c.date old cur) (hlater : c.date ≤ c.today)
    (htime : ∀ p ∈ old ++ cur, p.time < c.time) :
    ∃ parts', Written P (write P dir c).1 (old ++ cur) c parts' := by
  rcases List.eq_nil_or_concat cur with rfl | ⟨front, last, rfl⟩
  · exact write_full hshows hordered hfew hsplit hlater htime (by simp)
  · rw [List.concat_eq_append] at hshows hordered hfew hsplit htime ⊢
    by_cases hlast : last.IsFull
    · apply write_full hshows hordered hfew hsplit hlater htime
      intro p hp
      rcases List.mem_append.mp hp with hp | hp
      · have hcur := (List.pairwise_append.mp (List.pairwise_append.mp hordered).2.1).2.2 p hp last
          (List.mem_singleton_self last)
        rcases hcur.place with hlt | ⟨-, -, hfull⟩
        · rw [hsplit.current p (List.mem_append_left _ hp), hsplit.current last (by simp)] at hlt
          exact absurd hlt (lt_irrefl _)
        · exact hfull
      · rw [List.mem_singleton.mp hp]
        exact hlast
    · exact ⟨_, write_last hshows hordered hfew hsplit hlater htime hlast⟩

/-- The clock never goes back, and each write gets a later time than those before it. -/
structure Proper (calls : List (Call δ)) : Prop where
  order : calls.Pairwise fun a b => a.today ≤ b.date ∧ a.time < b.time
  each : ∀ c ∈ calls, c.date ≤ c.today

structure Kept (P : Platform δ) (calls : List (Call δ)) (parts : List (Part δ)) : Prop where
  shows : Shows P (run P calls) parts
  ordered : Ordered parts
  few : parts.length ≤ MAX_FILE_SUM + MAX_FILE_SUM_CACHE + 1
  split : ∀ d, (∀ c ∈ calls, c.today ≤ d) → ∃ old cur, parts = old ++ cur ∧ Split d old cur
  times : ∀ p ∈ parts, ∃ c ∈ calls, p.time = c.time
  lost : ∃ gone, calls.map Call.record = gone ++ records parts
  latest : calls ≠ [] → records parts ≠ []

theorem kept_of_proper (P : Platform δ) {calls : List (Call δ)} (h : Proper calls) :
    ∃ parts, Kept P calls parts := by
  induction calls using List.reverseRecOn with
  | nil =>
    refine ⟨[], ?_, List.Pairwise.nil, Nat.zero_le _, ?_, by simp, ⟨[], rfl⟩, by simp⟩
    · intro name f
      simp [run]
    · exact fun d _ => ⟨[], [], rfl, by simp, by simp, rfl⟩
  | append_singleton calls c ih =>
    obtain ⟨horder, -, hlast⟩ := List.pairwise_append.mp h.order
    obtain ⟨parts, hkept⟩ := ih ⟨horder, fun b hb => h.each b (List.mem_append_left _ hb)⟩
    have hbefore : ∀ b ∈ calls, b.today ≤ c.date ∧ b.time < c.time :=
      fun b hb => hlast b hb c (List.mem_singleton_self c)
    have hlater : c.date ≤ c.today := h.each c (by simp)
    obtain ⟨old, cur, rfl, hsplit⟩ := hkept.split c.date fun b hb => (hbefore b hb).1
    have htime : ∀ p ∈ old ++ cur, p.time < c.time := by
      intro p hp
      obtain ⟨b, hb, heq⟩ := hkept.times p hp
      rw [heq]
      exact (hbefore b hb).2
    obtain ⟨parts', hwritten⟩ :=
      write_written hkept.shows hkept.ordered hkept.few hsplit hlater htime
    refine ⟨parts', ?_, hwritten.ordered, hwritten.few, ?_, ?_, ?_, fun _ => hwritten.latest⟩
    · rw [run_concat]
      exact hwritten.shows
    · intro d hd
      obtain ⟨old', cur', rfl, hsplit'⟩ := hwritten.split
      exact hsplit'.advance (hd c (by simp))
    · intro p hp
      rcases hwritten.times p hp with heq | ⟨q, hq, heq⟩
      · exact ⟨c, by simp, heq⟩
      · obtain ⟨b, hb, hqb⟩ := hkept.times q hq
        exact ⟨b, List.mem_append_left _ hb, heq.trans hqb⟩
    · obtain ⟨gone, hgone⟩ := hkept.lost
      obtain ⟨more, hmore⟩ := hwritten.lost
      refine ⟨gone ++ more, ?_⟩
      rw [List.map_append, hgone, List.append_assoc, List.append_assoc]
      congr 1

theorem Ordered.full {i j : Part δ} (h : Ordered parts) (hi : i ∈ parts) (hj : j ∈ parts)
    (hdate : i.date = j.date) (hlt : i.index < j.index) : i.IsFull := by
  have hne : i ≠ j := fun heq => absurd hlt (heq ▸ Nat.lt_irrefl _)
  have hcases : Part.Before i j ∨ Part.Before j i :=
    List.Pairwise.forall_of_forall_of_flip
      (R := fun a b => a ≠ b → Part.Before a b ∨ Part.Before b a)
      (by intro a _ hne; exact absurd rfl hne) (h.imp fun hab _ => Or.inl hab)
      (h.imp fun hab _ => Or.inr hab) hi hj hne
  rcases hcases with hbefore | hbefore
  · rcases hbefore.place with hless | ⟨-, -, hfull⟩
    · exact absurd hdate (ne_of_lt hless)
    · exact hfull
  · rcases hbefore.place with hless | ⟨-, hless, -⟩
    · exact absurd hdate.symm (ne_of_lt hless)
    · omega

/-- After every call the directory holds the end of what was written, in whole records and with
the latest one; the files of the day are numbered from 1, and only the last file of a date has
room left. -/
theorem rotation_loses_the_oldest (P : Platform δ) {calls : List (Call δ)} {c : Call δ}
    (h : Proper (calls ++ [c])) :
    (run P (calls ++ [c])).keys.length ≤ MAX_FILE_SUM + MAX_FILE_SUM_CACHE + 1 ∧
    (∃ n, ∀ i, fileName P c.today i ∈ run P (calls ++ [c]) ↔ 1 ≤ i ∧ i ≤ n) ∧
    (∀ date i j, i < j → fileName P date i ∈ run P (calls ++ [c]) →
      fileName P date j ∈ run P (calls ++ [c]) →
        MAX_FILE_SIZE < (bytesOf (run P (calls ++ [c])) (fileName P date i)).length) ∧
    ∃ order : List (δ × ℕ),
      order.Pairwise (fun a b => a.1 < b.1 ∨ a.1 = b.1 ∧ a.2 < b.2) ∧
      (run P (calls ++ [c])).keys.Perm (order.map fun k => fileName P k.1 k.2) ∧
      ∃ gone kept, (calls ++ [c]).map Call.record = gone ++ kept ∧ kept ≠ [] ∧
        (order.flatMap fun k => bytesOf (run P (calls ++ [c])) (fileName P k.1 k.2)) =
          kept.flatten := by
  obtain ⟨parts, hkept⟩ := kept_of_proper P h
  have hkeys := hkept.shows.keys_perm hkept.ordered.nodup_names
  refine ⟨?_, ?_, ?_, parts.map fun p => (p.date, p.index), ?_, ?_, ?_⟩
  · rw [hkeys.length_eq, List.length_map]
    exact hkept.few
  · have htoday : ∀ b ∈ calls ++ [c], b.today ≤ c.today := by
      intro b hb
      rcases List.mem_append.mp hb with hb | hb
      · have horder := (List.pairwise_append.mp h.order).2.2 b hb c (List.mem_singleton_self c)
        exact le_trans horder.1 (h.each c (by simp))
      · rw [List.mem_singleton.mp hb]
    obtain ⟨old, cur, rfl, hsplit⟩ := hkept.split c.today htoday
    refine ⟨cur.length, fun i => ?_⟩
    rw [hkept.shows.mem_iff]
    constructor
    · rintro ⟨p, hp, hdate, rfl⟩
      rcases List.mem_append.mp hp with hp | hp
      · exact absurd hdate (ne_of_lt (hsplit.dated p hp))
      · exact hsplit.index_le hp
    · rintro ⟨hi, hlen⟩
      obtain ⟨p, hp, hindex⟩ := hsplit.exists_index hi hlen
      exact ⟨p, List.mem_append_right old hp, hsplit.current p hp, hindex⟩
  · intro date i j hij hi hj
    obtain ⟨p, hp, rfl, rfl⟩ := hkept.shows.mem_iff.mp hi
    obtain ⟨q, hq, hdate, rfl⟩ := hkept.shows.mem_iff.mp hj
    have hfull := hkept.ordered.full hp hq hdate.symm hij
    rw [← Part.name, hkept.shows.bytesOf_eq hp]
    exact hfull
  · rw [List.pairwise_map]
    exact hkept.ordered.imp fun hbefore =>
      hbefore.place.imp_right fun hplace => ⟨hplace.1, hplace.2.1⟩
  · rw [List.map_map]
    exact hkeys
  · obtain ⟨gone, hgone⟩ := hkept.lost
    refine ⟨gone, records parts, hgone, hkept.latest (by simp), ?_⟩
    rw [List.flatMap_map, flatten_records]
    apply List.flatMap_congr
    intro p hp
    exact hkept.shows.bytesOf_eq hp

end Run

/-- Three days, with the files listed as they lie. -/
def threeDays : Platform (Fin 3) where
  format d := '2' :: Nat.toDigits 10 d
  format_injective a b := by revert a b; decide
  format_ne_nil := by simp
  length_format := by decide
  listFiles dir := dir.keys
  listFiles_perm _ := List.Perm.refl _

def largeRecord (time : ℕ) : Call (Fin 3) :=
  ⟨0, 0, List.replicate (MAX_FILE_SIZE + 1) 0, time⟩

def crowdedDay (n : ℕ) : List (Call (Fin 3)) := (List.range n).map largeRecord

def dayAfter (time : ℕ) : Call (Fin 3) := ⟨1, 1, [0], time⟩

theorem proper_crowdedDay {n : ℕ} {c : Call (Fin 3)} (hdate : c.date ≤ c.today)
    (htime : n ≤ c.time) : Proper (crowdedDay n ++ [c]) where
  order := by
    rw [List.pairwise_append]
    refine ⟨?_, List.pairwise_singleton _ _, fun a ha b hb => ?_⟩
    · rw [crowdedDay, List.pairwise_map]
      exact List.pairwise_lt_range.imp fun hlt => ⟨le_refl _, hlt⟩
    · obtain ⟨i, hi, rfl⟩ := List.mem_map.mp ha
      rw [List.mem_singleton.mp hb]
      exact ⟨Fin.zero_le _, Nat.lt_of_lt_of_le (List.mem_range.mp hi) htime⟩
  each := by
    intro b hb
    rcases List.mem_append.mp hb with hb | hb
    · obtain ⟨i, -, rfl⟩ := List.mem_map.mp hb
      exact le_refl _
    · rw [List.mem_singleton.mp hb]
      exact hdate

/-- A day that fills 82 files, so that its first ones are deleted and the others renumbered, and
a record of the day after. -/
theorem rotation_loses_the_oldest_crowded :
    let dir := run threeDays (crowdedDay 82 ++ [dayAfter 82])
    dir.keys.length ≤ MAX_FILE_SUM + MAX_FILE_SUM_CACHE + 1 ∧
    (∃ n, ∀ i, fileName threeDays 1 i ∈ dir ↔ 1 ≤ i ∧ i ≤ n) ∧
    (∀ date i j, i < j → fileName threeDays date i ∈ dir → fileName threeDays date j ∈ dir →
      MAX_FILE_SIZE < (bytesOf dir (fileName threeDays date i)).length) ∧
    ∃ order : List (Fin 3 × ℕ),
      order.Pairwise (fun a b => a.1 < b.1 ∨ a.1 = b.1 ∧ a.2 < b.2) ∧
      dir.keys.Perm (order.map fun k => fileName threeDays k.1 k.2) ∧
      ∃ gone kept, (crowdedDay 82 ++ [dayAfter 82]).map Call.record = gone ++ kept ∧
        kept ≠ [] ∧
        (order.flatMap fun k => bytesOf dir (fileName threeDays k.1 k.2)) = kept.flatten :=
  @rotation_loses_the_oldest (Fin 3) _ threeDays (crowdedDay 82) (dayAfter 82)
    (proper_crowdedDay (le_refl _) (le_refl _))

end LogRotation
