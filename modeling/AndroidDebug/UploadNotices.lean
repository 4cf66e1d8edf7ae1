import AndroidDebug.FormHeaders
import AndroidDebug.UploadProgress
import Mathlib.Algebra.Group.Nat.Defs

/-! What the listener of an upload is told while the request is read, and what a page that polls
makes of it. -/
namespace MultipartStream

open ByteSource

/-- The calls of the listener so far go up, in bytes and in items. -/
structure ProgressNotifier.Ordered (n : ProgressNotifier) : Prop where
  pairwise : n.updates.Pairwise fun u v => u.1 ≤ v.1 ∧ u.2 ≤ v.2
  reached : ∀ u ∈ n.updates, u.1 ≤ n.bytesRead ∧ u.2 ≤ n.items

/-- A step notes what it takes from the source, and as many items as it finds. -/
structure Noting (found : ℕ) (s t : Stream) : Prop where
  bytes : t.notifier.bytesRead + t.input.rest.length = s.notifier.bytesRead + s.input.rest.length
  items : t.notifier.items = s.notifier.items + found
  ordered : s.notifier.Ordered → t.notifier.Ordered

variable {n : ProgressNotifier} {s t u : Stream}

theorem ordered_notify {bytesRead items : ℕ} (h : n.Ordered) (hbytes : n.bytesRead ≤ bytesRead)
    (hitems : n.items ≤ items) :
    (ProgressNotifier.notifyListener ⟨bytesRead, items, n.updates⟩).Ordered where
  pairwise := by
    refine List.pairwise_append.mpr ⟨h.pairwise, List.pairwise_singleton _ _, ?_⟩
    intro u hu v hv
    cases List.mem_singleton.mp hv
    exact ⟨(h.reached u hu).1.trans hbytes, (h.reached u hu).2.trans hitems⟩
  reached u hu := by
    rcases List.mem_append.mp hu with hu | hu
    · exact ⟨(h.reached u hu).1.trans hbytes, (h.reached u hu).2.trans hitems⟩
    · cases List.mem_singleton.mp hu
      exact ⟨Nat.le_refl _, Nat.le_refl _⟩

theorem Noting.refl (s : Stream) : Noting 0 s s := ⟨rfl, rfl, id⟩

theorem Noting.add {i j : ℕ} (h : Noting i s t) (k : Noting j t u) : Noting (i + j) s u where
  bytes := k.bytes.trans h.bytes
  items := by rw [k.items, h.items, Nat.add_assoc]
  ordered := k.ordered ∘ h.ordered

theorem Noting.trans {found : ℕ} (h : Noting 0 s t) (k : Noting found t u) : Noting found s u := by
  simpa only [Nat.zero_add] using h.add k

theorem noting_filled {len : ℕ} {bytes : Bytes} {input : Source UInt8} (off : ℤ)
    (h : s.input.read len = some (bytes, input)) : Noting 0 s (s.filled off bytes input) where
  bytes := by
    show s.notifier.bytesRead + bytes.length + input.rest.length = _
    rw [(brings_of_read h).rest_eq, List.length_append]
    omega
  items := rfl
  ordered hn := ordered_notify hn (Nat.le_add_right _ _) (Nat.le_refl _)

/-! Bytes, boundaries and headers. -/

theorem noting_nextByte (s : Stream) : Noting 0 s (nextByte s).2 := by
  rw [nextByte]
  split <;> exact ⟨rfl, rfl, id⟩

theorem noting_readByte (s : Stream) : Noting 0 s (readByte s).2 := by
  rw [readByte]
  split_ifs
  · cases hread : s.input.read s.bufSize with
    | none => exact ⟨rfl, rfl, id⟩
    | some r =>
      have hfilled : Noting 0 s { s.filled 0 r.1 r.2 with head := 0 } := by
        obtain ⟨hbytes, hitems, hordered⟩ := noting_filled 0 hread
        exact ⟨hbytes, hitems, hordered⟩
      exact hfilled.trans (noting_nextByte _)
  · exact noting_nextByte s

theorem noting_readMarker (s : Stream) : Noting 0 s (readMarker s).2 := by
  rw [readMarker]
  have hfirst := noting_readByte s
  generalize readByte s = r at hfirst
  obtain ⟨first | first, s₁⟩ := r
  · exact hfirst
  dsimp only at hfirst ⊢
  split_ifs
  · exact hfirst
  have hsecond := hfirst.trans (noting_readByte s₁)
  generalize readByte s₁ = r at hsecond
  obtain ⟨second | second, s₂⟩ := r
  · exact hsecond
  dsimp only at hsecond ⊢
  split_ifs <;> exact hsecond

theorem noting_readBoundary (s : Stream) : Noting 0 s (readBoundary s).2 := by
  have hmarker := noting_readMarker { s with head := s.head + s.boundaryLength }
  rw [readBoundary]
  generalize readMarker { s with head := s.head + s.boundaryLength } = r at hmarker
  obtain ⟨e | nextChunk, t⟩ := r <;> exact ⟨hmarker.bytes, hmarker.items, hmarker.ordered⟩

theorem noting_setBoundary (s : Stream) (boundary : Bytes) :
    Noting 0 s (setBoundary s boundary).2 := by
  rw [setBoundary]
  split_ifs <;> exact ⟨rfl, rfl, id⟩

theorem noting_readHeaderBytes (i size : ℕ) (baos : Bytes) (s : Stream) :
    Noting 0 s (readHeaderBytes i size baos s).2 := by
  fun_induction readHeaderBytes i size baos s with
  | case1 => exact .refl _
  | case2 i size baos s _ e t h => simpa only [h] using noting_readByte s
  | case3 i size baos s _ b t h => simpa only [h] using noting_readByte s
  | case4 i size baos s _ b t h _ ih =>
    have hbyte := noting_readByte s
    rw [h] at hbyte
    exact hbyte.trans ih

/-! The content of an item. -/

theorem noting_refill (s : Stream) (item : Item) : Noting 0 s (refill s item).2.1 := by
  fun_induction refill s item with
  | case1 => exact .refl _
  | case2 s item bytes input h => exact noting_filled s.tail h
  | case3 s item input h => exact noting_filled s.tail h
  | case4 s item bytes input h t item' av _ hne hlt ih => exact (noting_filled s.tail h).trans ih

theorem noting_makeAvailable (s : Stream) (item : Item) :
    Noting 0 s (makeAvailable s item).2.1 := by
  rw [makeAvailable]
  dsimp only
  split_ifs
  · exact .refl s
  · exact .refl s
  · have h := noting_refill { s with
      buffer := arraycopy s.buffer (s.tail - item.pad) s.buffer 0 item.pad
      head := 0
      tail := item.pad } { item with total := item.total + (s.tail - s.head - item.pad) }
    exact ⟨h.bytes, h.items, h.ordered⟩

theorem noting_ensureAvailable (s : Stream) (item : Item) :
    Noting 0 s (ensureAvailable s item).2.1 := by
  rw [ensureAvailable]
  split_ifs
  · exact noting_makeAvailable s item
  · exact .refl s

theorem noting_read (s : Stream) (item : Item) (len : ℕ) :
    Noting 0 s (read s item len).2.1 := by
  rw [read]
  split_ifs
  · exact .refl s
  · exact .refl s
  have h := noting_ensureAvailable s item
  generalize ensureAvailable s item = r at h
  obtain ⟨e | res, t, item'⟩ := r
  · exact h
  dsimp only at h ⊢
  split_ifs <;> exact ⟨h.bytes, h.items, h.ordered⟩

theorem noting_skip (s : Stream) (item : Item) (bytes : ℕ) :
    Noting 0 s (skip s item bytes).2.1 := by
  rw [skip]
  split_ifs
  · exact .refl s
  have h := noting_ensureAvailable s item
  generalize ensureAvailable s item = r at h
  obtain ⟨e | av, t, item'⟩ := r
  · exact h
  dsimp only at h ⊢
  split_ifs <;> exact ⟨h.bytes, h.items, h.ordered⟩

theorem noting_closeLoop (fuel : ℕ) (s : Stream) (item : Item) :
    Noting 0 s (closeLoop fuel s item).2.1 := by
  induction fuel generalizing s item with
  | zero => exact .refl s
  | succ fuel ih =>
    rw [closeLoop]
    have hav := noting_ensureAvailable s item
    generalize ensureAvailable s item = r at hav
    obtain ⟨e | av, s₁, item₁⟩ := r
    · exact hav
    dsimp only at hav ⊢
    split_ifs
    · exact hav
    have hskip := hav.trans (noting_skip s₁ item₁ av.toNat)
    generalize skip s₁ item₁ av.toNat = r at hskip
    obtain ⟨e | skipped, s₂, item₂⟩ := r
    · exact hskip
    · exact hskip.trans (ih s₂ item₂)

theorem noting_close (s : Stream) (item : Item) : Noting 0 s (close s item).2.1 := by
  rw [close]
  split_ifs
  · exact .refl s
  · exact noting_closeLoop s.turns s item

theorem noting_copyLoop (fuel : ℕ) (out : Bytes) (s : Stream) (item : Item) :
    Noting 0 s (copyLoop fuel out s item).2.1 := by
  induction fuel generalizing out s item with
  | zero => exact .refl s
  | succ fuel ih =>
    rw [copyLoop]
    have hread := noting_read s item DEFAULT_BUFFER_SIZE
    generalize read s item DEFAULT_BUFFER_SIZE = r at hread
    obtain ⟨e | bytes, s₁, item₁⟩ := r
    · exact hread
    · cases bytes with
      | none => exact hread
      | some bytes => exact hread.trans (ih (out ++ bytes) s₁ item₁)

theorem noting_copy (s : Stream) (item : Item) : Noting 0 s (copy s item).2.1 := by
  rw [copy]
  have hloop := noting_copyLoop s.turns [] s item
  generalize copyLoop s.turns [] s item = r at hloop
  obtain ⟨e | out, s₁, item₁⟩ := r
  · dsimp only at hloop ⊢
    split_ifs
    · exact hloop
    · exact hloop.trans (noting_close s₁ item₁)
  · have hclose := hloop.trans (noting_close s₁ item₁)
    dsimp only
    generalize close s₁ item₁ = r at hclose
    obtain ⟨e | ⟨⟩, s₂, item₂⟩ := r <;> exact hclose

theorem noting_discardBodyData (s : Stream) : Noting 0 s (discardBodyData s).2 :=
  noting_copy s (newInputStream s)

theorem noting_skipPreamble (s : Stream) : Noting 0 s (skipPreamble s).2 := by
  have hread : ∀ s : Stream, Noting 0 s (readToBoundary s).2 := by
    intro s
    have hdiscard := noting_discardBodyData s
    rw [readToBoundary]
    generalize discardBodyData s = r at hdiscard
    obtain ⟨e | ⟨⟩, t⟩ := r
    · exact hdiscard
    · exact hdiscard.trans (noting_readBoundary t)
  have h := hread { s with
    boundary := arraycopy s.boundary 2 s.boundary 0 (s.boundary.length - 2)
    boundaryLength := s.boundary.length - 2 }
  exact ⟨h.bytes, h.items, h.ordered⟩

end MultipartStream

namespace FileUploadBase

open MultipartStream ByteSource JavaText

def isItem : Except Failure Bool → Bool
  | .ok found => found
  | .error _ => false

/-- What a search for the next item notes, and whether it leaves an item to be taken. -/
structure Looked (it : FileItemIterator) (r : Except Failure Bool × FileItemIterator) : Prop where
  noting : Noting (isItem r.1).toNat it.multi r.2.multi
  valid : r.2.itemValid = (it.itemValid || isItem r.1)
  eof : isItem r.1 = true → r.2.eof = it.eof

variable (rt : Runtime) {it it₁ : FileItemIterator}
  {next : FileItemIterator → Except Failure Bool × FileItemIterator}
  {r : Except Failure Bool × FileItemIterator}

theorem Looked.after (h : Looked it₁ r) (hn : Noting 0 it.multi it₁.multi)
    (hvalid : it₁.itemValid = it.itemValid) (heof : it₁.eof = it.eof) : Looked it r where
  noting := hn.trans h.noting
  valid := by rw [h.valid, hvalid]
  eof hitem := (h.eof hitem).trans heof

theorem looked_failed {e : Failure} (hn : Noting 0 it.multi it₁.multi)
    (hvalid : it₁.itemValid = it.itemValid) : Looked it (.error e, it₁) :=
  ⟨hn, by simpa only [isItem, Bool.or_false] using hvalid, nofun⟩

theorem looked_found (it : FileItemIterator) (item : FileItemStream) :
    Looked it (.ok true, it.found item) where
  noting := ⟨rfl, rfl, fun h => ordered_notify h (Nat.le_refl _) (Nat.le_add_right _ _)⟩
  valid := (Bool.or_true _).symm
  eof _ := rfl

theorem looked_bodyEnded (hnext : ∀ it, Looked it (next it)) (it : FileItemIterator) :
    Looked it (bodyEnded next it) := by
  rw [bodyEnded]
  split
  · exact ⟨⟨rfl, rfl, id⟩, (Bool.or_false _).symm, nofun⟩
  have hset := noting_setBoundary it.multi it.boundary
  generalize setBoundary it.multi it.boundary = r at hset
  obtain ⟨e | ⟨⟩, multi⟩ := r
  · exact looked_failed hset rfl
  · exact (hnext { it with multi, currentFieldName := none }).after hset rfl rfl

theorem looked_partOpened (hnext : ∀ it, Looked it (next it)) (headers : FileItemHeaders)
    (it : FileItemIterator) : Looked it (partOpened rt next headers it) := by
  rw [partOpened]
  cases partKind rt it.currentFieldName headers with
  | item item => exact looked_found it item
  | mixed fieldName subContentType =>
    dsimp only
    cases getBoundary rt (some subContentType) with
    | none => exact looked_failed (.refl _) rfl
    | some subBoundary =>
      have hset := noting_setBoundary it.multi subBoundary
      dsimp only
      generalize setBoundary it.multi subBoundary = r at hset
      obtain ⟨e | ⟨⟩, multi⟩ := r
      · exact looked_failed hset rfl
      · exact (hnext { it with
          multi, currentFieldName := some fieldName, skipPreamble := true }).after hset rfl rfl
  | ignored =>
    have hdiscard := noting_discardBodyData it.multi
    dsimp only
    generalize discardBodyData it.multi = r at hdiscard
    obtain ⟨e | ⟨⟩, multi⟩ := r
    · exact looked_failed hdiscard rfl
    · exact (hnext { it with multi }).after hdiscard rfl rfl

theorem looked_partBegun (hnext : ∀ it, Looked it (next it)) (it : FileItemIterator) :
    Looked it (partBegun rt next it) := by
  rw [partBegun]
  have hheaders := noting_readHeaderBytes 0 0 [] it.multi
  rw [← readHeaders] at hheaders
  generalize readHeaders it.multi = r at hheaders
  obtain ⟨e | headerPart, multi⟩ := r
  · exact looked_failed hheaders rfl
  dsimp only at hheaders ⊢
  cases getParsedHeaders rt (rt.decodeHeaders headerPart) with
  | none => exact looked_failed hheaders rfl
  | some headers =>
    exact (looked_partOpened rt hnext headers { it with multi }).after hheaders rfl rfl

theorem looked_nextItemLoop (fuel : ℕ) (it : FileItemIterator) :
    Looked it (nextItemLoop rt fuel it) := by
  induction fuel generalizing it with
  | zero => exact looked_failed (.refl _) rfl
  | succ fuel ih =>
    rw [nextItemLoop]
    have hfound : Noting 0 it.multi (if it.skipPreamble then MultipartStream.skipPreamble it.multi
        else readBoundary it.multi).2 := by
      split_ifs
      · exact noting_skipPreamble it.multi
      · exact noting_readBoundary it.multi
    generalize (if it.skipPreamble then MultipartStream.skipPreamble it.multi
      else readBoundary it.multi) = r at hfound
    obtain ⟨e | nextPart, multi⟩ := r
    · exact looked_failed hfound rfl
    · cases nextPart with
      | false => exact (looked_bodyEnded ih { it with multi }).after hfound rfl rfl
      | true => exact (looked_partBegun rt ih { it with multi }).after hfound rfl rfl

theorem looked_findNextItem (it : FileItemIterator) : Looked it (findNextItem rt it) := by
  rw [findNextItem]
  split_ifs
  · exact ⟨.refl _, (Bool.or_false _).symm, nofun⟩
  cases it.currentItem with
  | none => exact looked_nextItemLoop rt _ it
  | some current =>
    obtain ⟨item, inner⟩ := current
    have hclose := noting_close it.multi inner
    dsimp only
    generalize close it.multi inner = r at hclose
    obtain ⟨e | ⟨⟩, multi, inner'⟩ := r
    · exact looked_failed hclose rfl
    · exact (looked_nextItemLoop rt _ { it with multi, currentItem := none }).after hclose rfl rfl

/-- An item that was found before is not noted again. -/
theorem noting_hasNext (heof : it.eof = true → it.itemValid = false) :
    ∃ found, Noting found it.multi (hasNext rt it).2.multi ∧
      found + it.itemValid.toNat = (isItem (hasNext rt it).1).toNat := by
  rw [hasNext]
  split_ifs with hend hvalid
  · exact ⟨0, .refl _, by rw [heof hend]; rfl⟩
  · exact ⟨0, .refl _, by rw [hvalid]; rfl⟩
  · refine ⟨_, (looked_findNextItem rt it).noting, ?_⟩
    rw [Bool.not_eq_true] at hvalid
    rw [hvalid]
    rfl

/-- By induction on the items; each is noted once. -/
theorem noting_parseItems (fuel : ℕ) (heof : it.eof = true → it.itemValid = false) :
    ∃ found, Noting found it.multi (parseItems rt fuel it).2.multi ∧
      ∀ files, (parseItems rt fuel it).1 = .ok files →
        found + it.itemValid.toNat = files.length := by
  induction fuel generalizing it with
  | zero => exact ⟨0, .refl _, nofun⟩
  | succ fuel ih =>
    obtain ⟨found, hnoting, hcount⟩ := noting_hasNext rt heof
    rw [parseItems]
    generalize hasNext rt it = r at hnoting hcount
    obtain ⟨e | more, it₁⟩ := r
    · exact ⟨found, hnoting, nofun⟩
    cases more with
    | false =>
      refine ⟨found, hnoting, fun files hfiles => ?_⟩
      cases hfiles
      exact hcount
    | true =>
      dsimp only at hnoting hcount ⊢
      cases it₁.currentItem with
      | none => exact ⟨found, hnoting, nofun⟩
      | some current =>
        obtain ⟨item, inner⟩ := current
        have hcopy := noting_copy it₁.multi inner
        dsimp only
        generalize copy it₁.multi inner = r at hcopy
        obtain ⟨e | content, multi, inner'⟩ := r
        · exact ⟨found, hnoting.add hcopy, nofun⟩
        obtain ⟨found', hrest, hcount'⟩ := @ih
          { it₁ with multi, itemValid := false, currentItem := some (item, inner') } fun _ => rfl
        dsimp only
        generalize parseItems rt fuel
          { it₁ with multi, itemValid := false, currentItem := some (item, inner') } = rest
          at hrest hcount' ⊢
        refine ⟨found + found', hnoting.add (hcopy.trans hrest), fun files hfiles => ?_⟩
        obtain ⟨e | files', it₂⟩ := rest
        · cases hfiles
        · cases hfiles
          have hlength := hcount' files' rfl
          simp only [isItem, Bool.toNat_true, Bool.toNat_false] at hcount hlength
          rw [List.length_cons]
          omega

theorem noting_parseRequest (bufSize : ℕ) (contentType : Option JString) (input : Source UInt8) :
    ∃ t found, (parseRequest rt bufSize contentType input).2 = t.notifier ∧
      Noting found (create input [] 0 ⟨0, 0, []⟩) t ∧
      ∀ files, (parseRequest rt bufSize contentType input).1 = .ok files →
        found = files.length := by
  rw [parseRequest, getItemIterator]
  split_ifs
  · exact ⟨_, 0, rfl, .refl _, nofun⟩
  cases getBoundary rt contentType with
  | none => exact ⟨_, 0, rfl, .refl _, nofun⟩
  | some boundary =>
    have hlooked := looked_findNextItem rt
      ⟨create input boundary bufSize ⟨0, 0, []⟩, boundary, none, none, true, false, false⟩
    dsimp only
    generalize findNextItem rt
      ⟨create input boundary bufSize ⟨0, 0, []⟩, boundary, none, none, true, false, false⟩ = r
      at hlooked
    have hbegun : Noting (isItem r.1).toNat (create input [] 0 ⟨0, 0, []⟩) r.2.multi :=
      ⟨hlooked.noting.bytes, hlooked.noting.items, hlooked.noting.ordered⟩
    obtain ⟨e | more, it⟩ := r
    · exact ⟨_, _, rfl, hbegun, nofun⟩
    have hvalid : it.itemValid = more := hlooked.valid
    obtain ⟨found, hnoting, hcount⟩ := @noting_parseItems rt it it.multi.turns (by
      cases more with
      | false => exact fun _ => hvalid
      | true => exact fun heof => nomatch heof.symm.trans (hlooked.eof rfl))
    refine ⟨_, _, rfl, hbegun.add hnoting, fun files hfiles => ?_⟩
    rw [← hcount files hfiles, hvalid]
    exact Nat.add_comm _ _

end FileUploadBase

namespace FileUploadBase

open MultipartStream ByteSource JavaText

theorem ordered_parseRequest (rt : Runtime) (contentType : Option JString) (body : Bytes)
    (plan : List ℕ) (bufSize : ℕ) :
    (parseRequest rt bufSize contentType ⟨body, plan⟩).2.Ordered ∧
      (parseRequest rt bufSize contentType ⟨body, plan⟩).2.bytesRead ≤ body.length := by
  obtain ⟨t, found, hnotifier, hnoting, -⟩ :=
    noting_parseRequest rt bufSize contentType ⟨body, plan⟩
  have hbytes : t.notifier.bytesRead + t.input.rest.length = 0 + body.length := hnoting.bytes
  rw [hnotifier]
  exact ⟨hnoting.ordered ⟨.nil, nofun⟩, by omega⟩

/-- However a request arrives and wherever it fails, its listener hears of the bytes and of the
items in order, of no byte that was not sent, and of each item once. -/
theorem listener_follows_request (rt : Runtime) (contentType : Option JString) (body : Bytes)
    (plan : List ℕ) (bufSize : ℕ) :
    (parseRequest rt bufSize contentType ⟨body, plan⟩).2.updates.Pairwise
        (fun u v => u.1 ≤ v.1 ∧ u.2 ≤ v.2) ∧
      (∀ u ∈ (parseRequest rt bufSize contentType ⟨body, plan⟩).2.updates,
        u.1 ≤ body.length) ∧
      ∀ files, (parseRequest rt bufSize contentType ⟨body, plan⟩).1 = .ok files →
        (parseRequest rt bufSize contentType ⟨body, plan⟩).2.items = files.length := by
  obtain ⟨hordered, hread⟩ := ordered_parseRequest rt contentType body plan bufSize
  refine ⟨hordered.pairwise, fun u hu => (hordered.reached u hu).1.trans hread, ?_⟩
  intro files hfiles
  obtain ⟨t, found, hnotifier, hnoting, hcount⟩ :=
    noting_parseRequest rt bufSize contentType ⟨body, plan⟩
  rw [hnotifier, hnoting.items, hcount files hfiles]
  exact Nat.zero_add _

end FileUploadBase

namespace UploadProgress

open TransitionSystem JavaText ByteSource MultipartStream

/-- The events of an upload whose listener is called so. -/
def listened (id : JString) (length : ℕ) (updates : List (ℕ × ℕ)) : List Event :=
  .start id (Int64.ofNat length) :: updates.map fun u => .update id (Int64.ofNat u.1)

/-- The whole percentage of what has been read, which is forgotten at a hundred. -/
def share (bytesRead length : ℕ) : Int32 :=
  if bytesRead = length then -1 else Int32.ofNat (bytesRead * 100 / length)

structure Underway (s : State) (id : JString) (length bytesRead : ℕ) : Prop where
  phase : (s.uploads id).phase = .running
  contentLength : (s.uploads id).contentLength = Int64.ofNat length
  bytesRead : (s.uploads id).bytesRead = Int64.ofNat bytesRead

variable {webRoot : JString} {s : State} {id : JString} {length b c : ℕ}

theorem percentage_ofNat (hpos : 0 < length) (hlength : length * 100 < 2 ^ 63)
    (hb : b ≤ length) :
    percentage (Int64.ofNat b) (Int64.ofNat length) = some (Int32.ofNat (b * 100 / length)) := by
  have hto : (Int64.ofNat length).toInt = length := Int64.toInt_ofNat_of_lt (by omega)
  have hquotient : b * 100 / length ≤ 100 := Nat.div_le_of_le_mul (Nat.mul_le_mul_right 100 hb)
  rw [percentage, if_neg]
  · congr 1
    apply Int32.toInt.inj
    rw [show (100 : Int64) = Int64.ofNat 100 from rfl, ← Int64.ofNat_mul, Int64.toInt_toInt32,
      Int64.toInt_div, Int64.toInt_ofNat_of_lt (by omega), hto,
      Int32.toInt_ofNat_of_lt (by omega), ← Int.ofNat_tdiv]
    generalize b * 100 / length = quotient at hquotient
    have hfits : ∀ m : ℕ, 2 ^ 32 ≤ m → (quotient : ℤ).bmod m = quotient :=
      fun m hm => Int.bmod_eq_of_le (by omega) (by omega)
    rw [hfits _ (by decide), hfits _ (by decide)]
  · intro hzero
    rw [hzero] at hto
    have : (0 : Int64).toInt = 0 := rfl
    omega

theorem ofNat_le_ofNat (hc : c < 2 ^ 63) (h : b ≤ c) : Int64.ofNat b ≤ Int64.ofNat c := by
  rw [Int64.le_iff_toInt_le, Int64.toInt_ofNat_of_lt (h.trans_lt hc), Int64.toInt_ofNat_of_lt hc]
  exact Int.ofNat_le.mpr h

/-- A call of the listener that is in order, and what a poll then answers. -/
theorem underway_update (h : Underway s id length b) (hpos : 0 < length)
    (hlength : length * 100 < 2 ^ 63) (hbc : b ≤ c) (hc : c ≤ length) :
    Enabled s (.update id (Int64.ofNat c)) ∧
      Underway (next webRoot s (.update id (Int64.ofNat c))) id length c ∧
      HttpProgressHandler.handle (next webRoot s (.update id (Int64.ofNat c))).progressMap
        (some id) = .ok (text (share c length)) := by
  have hto : (Int64.ofNat length).toInt = length := Int64.toInt_ofNat_of_lt (by omega)
  have hknown : Int64.ofNat length ≠ -1 := by
    intro hunknown
    rw [hunknown] at hto
    have : (-1 : Int64).toInt = -1 := rfl
    omega
  refine ⟨⟨h.phase, ?_, fun _ => ?_⟩, ?_, ?_⟩
  · rw [h.bytesRead]
    exact ofNat_le_ofNat (by omega) hbc
  · rw [h.contentLength]
    exact ofNat_le_ofNat (by omega) hc
  all_goals
    simp only [next, MyProgressListener.update, h.contentLength, hknown, if_false,
      percentage_ofNat hpos hlength hc]
  · constructor <;> simp [State.setUpload, h.phase]
  · have hshare : Int32.ofNat (c * 100 / length) = 100 ↔ c = length := by
      have hquotient : c * 100 / length ≤ 100 :=
        Nat.div_le_of_le_mul (Nat.mul_le_mul_right 100 hc)
      rw [← Int32.toInt_inj, Int32.toInt_ofNat_of_lt (by omega)]
      constructor
      · intro heq
        have hall : c * 100 / length = 100 := Int.ofNat.inj heq
        have := (Nat.le_div_iff_mul_le hpos).mp hall.ge
        omega
      · rintro rfl
        rw [Nat.mul_div_cancel_left 100 hpos]
        rfl
    simp only [HttpProgressHandler.handle, Progress.get, update_same, share, hshare]
    split_ifs <;> rfl

/-- Calls that go up are all admitted. -/
theorem underway_updates {updates : List (ℕ × ℕ)} (h : Underway s id length b) (hpos : 0 < length)
    (hlength : length * 100 < 2 ^ 63)
    (hordered : (updates.map Prod.fst).Pairwise (· ≤ ·)) (hb : ∀ u ∈ updates, b ≤ u.1)
    (hle : ∀ u ∈ updates, u.1 ≤ length) :
    ValidTrace (system webRoot) (Undisturbed webRoot) s
        (updates.map fun u => .update id (Int64.ofNat u.1)) ∧
      ∀ u after before, updates = before ++ u :: after →
        HttpProgressHandler.handle (runTrace (system webRoot) s
          ((before ++ [u]).map fun u => .update id (Int64.ofNat u.1))).progressMap (some id) =
            .ok (text (share u.1 length)) := by
  induction updates generalizing s b with
  | nil => exact ⟨trivial, fun _ _ before h => by cases before <;> cases h⟩
  | cons v updates ih =>
    rw [List.map_cons, List.pairwise_cons] at hordered
    obtain ⟨henabled, hnext, hpoll⟩ := @underway_update webRoot _ _ _ _ _ h hpos hlength
      (hb v List.mem_cons_self) (hle v List.mem_cons_self)
    obtain ⟨hvalid, hpolls⟩ := ih hnext hordered.2
      (fun u hu => hordered.1 u.1 (List.mem_map_of_mem hu))
      fun u hu => hle u (List.mem_cons_of_mem v hu)
    refine ⟨⟨⟨henabled, (absurd · Bool.false_ne_true)⟩, hvalid⟩, fun u after before heq => ?_⟩
    cases before with
    | nil =>
      cases heq
      exact hpoll
    | cons w before =>
      cases heq
      exact hpolls u after before rfl

/-- An upload with a known length, read by the parser even if it is cut off: its calls of the
listener are a run of the system that nothing disturbs, and a poll after each of them is answered
with the share of the announced length that has been read. -/
theorem polls_show_share (rt : FileUploadBase.Runtime) (contentType : Option JString)
    (body : Bytes) (plan : List ℕ) (bufSize : ℕ) (hpos : 0 < length)
    (hlength : length * 100 < 2 ^ 63) (hbody : body.length ≤ length)
    (hwaiting : (s.uploads id).phase = .waiting) :
    ValidTrace (system webRoot) (Undisturbed webRoot) s (listened id length
        (FileUploadBase.parseRequest rt bufSize contentType ⟨body, plan⟩).2.updates) ∧
      ∀ u after before,
        (FileUploadBase.parseRequest rt bufSize contentType ⟨body, plan⟩).2.updates =
          before ++ u :: after →
        HttpProgressHandler.handle (runTrace (system webRoot) s
          (listened id length (before ++ [u]))).progressMap (some id) =
            .ok (text (share u.1 length)) := by
  obtain ⟨hordered, hread⟩ := FileUploadBase.ordered_parseRequest rt contentType body plan bufSize
  have hstarted : Underway (next webRoot s (.start id (Int64.ofNat length))) id length 0 := by
    constructor <;> simp [next, State.setUpload]
  obtain ⟨hvalid, hpolls⟩ := underway_updates hstarted hpos hlength
    (List.pairwise_map.mpr (hordered.pairwise.imp And.left)) (fun _ _ => Nat.zero_le _)
    fun u hu => ((hordered.reached u hu).1.trans hread).trans hbody
  exact ⟨⟨⟨hwaiting, (absurd · Bool.false_ne_true)⟩, hvalid⟩, hpolls⟩

/-- The first upload: of ten bytes that were announced three come. -/
theorem polls_show_share_cut :
    ValidTrace (system []) (Undisturbed []) initial (listened [0x31] 10
        (FileUploadBase.parseRequest FileUploadBase.asciiRuntime 16
          (some (FileUploadBase.formContentType (ofString "B7")))
          ⟨[0x2D, 0x2D, 0x42], [1]⟩).2.updates) ∧
      ∀ u after before,
        (FileUploadBase.parseRequest FileUploadBase.asciiRuntime 16
          (some (FileUploadBase.formContentType (ofString "B7")))
          ⟨[0x2D, 0x2D, 0x42], [1]⟩).2.updates = before ++ u :: after →
        HttpProgressHandler.handle (runTrace (system []) initial
          (listened [0x31] 10 (before ++ [u]))).progressMap (some [0x31]) =
            .ok (text (share u.1 10)) :=
  polls_show_share FileUploadBase.asciiRuntime _ [0x2D, 0x2D, 0x42] [1] 16 (by decide) (by decide)
    (by decide) rfl

end UploadProgress
