import AndroidDebug.FormData

/-! A consumer that reads as much of each item as it likes. -/
namespace FileUploadBase

open JavaText MultipartStream ByteSource

variable (rt : Runtime)

/-- The items in turn, each with the calls that the consumer makes and their answers. -/
def walk : List (List Call) → FileItemIterator →
    Except Failure (List (FileItemStream × List Answer))
  | [], _ => .ok []
  | calls :: strategy, it =>
    match hasNext rt it with
    | (.error e, _) => .error e
    | (.ok false, _) => .ok []
    | (.ok true, it) =>
      match it.currentItem with
      | none => .error .nullPointer
      | some (item, inner) =>
        match answers it.multi inner calls with
        | (.error e, _, _) => .error (.multipart e)
        | (.ok given, multi, inner) =>
          (walk strategy
            { it with multi, itemValid := false, currentItem := some (item, inner) }).map
              ((item, given) :: ·)

variable {rt} {it : FileItemIterator} {field : Option JString} {token body : Bytes}

/-- Whatever has been read of an item, the next one is looked for behind its end. -/
theorem findNextItem_left (rt : Runtime) {outer : Bytes} {inner inner' : Item}
    (item : FileItemStream) {multi : Stream} {n i : ℕ} (h : Between it field token body)
    (houter : it.boundary = outer) (hopen : inner.closed = false)
    (hp : Passed it.multi inner multi inner' n)
    (hfind : Delimiter.find (delimiterOf token) body = some i) :
    Found outer (nextItem rt outer field token (body.drop i))
      (findNextItem rt
        { it with multi, itemValid := false, currentItem := some (item, inner') }) := by
  subst houter
  have hclose := close_ended hp.moved.ok hp.aligned (hp.closed.trans hopen)
  have hend := hp.find_eq h.good.ok
  rw [h.good.delimiter_eq, h.pending_eq, hfind] at hend
  rw [findNextItem, if_neg (by simp [h.not_eof])]
  dsimp only
  generalize close multi inner' = r at hclose
  cases hclose with
  | @done multi' _ j find moved =>
    rw [find, Option.map_some, Option.some.injEq] at hend
    have hmoved := hp.moved.trans moved
    rw [← hend] at hmoved
    have hpending := hmoved.pending_eq
    rw [h.pending_eq] at hpending
    have hgood := h.good.of_reached hmoved.reached
    have hlength := hgood.ok.length_pending
    rw [hpending] at hlength
    refine nextItemLoop_found _ ⟨hgood, hpending, h.field_eq, h.skips, h.not_eof, h.length_eq⟩
      rfl ?_
    split <;> omega
  | cut none =>
    rw [none] at hend
    cases hend
  | stalled moved _ stuck =>
    have hsmall := (hp.moved.trans moved).small stuck
    have hlarge := h.good.bufSize
    omega

theorem walk_hasNext (strategy : List (List Call)) {b : Bool} {it' : FileItemIterator}
    (h : hasNext rt it = (.ok b, it')) (h' : hasNext rt it' = (.ok b, it')) :
    walk rt strategy it = walk rt strategy it' := by
  cases strategy with
  | nil => rfl
  | cons calls strategy => rw [walk, h, walk, h']

/-- What the consumer sees of a file with the calls that it makes there. -/
structure Seen (visited : FileItemStream × List Answer) (met : List Call × FileItem) : Prop where
  item_eq : visited.1 = met.2.stream
  serves : Serves met.2.content met.1 visited.2

/-- By induction on the items that the consumer visits. -/
theorem walk_found {outer : Bytes} {next : Next} {b : Bool} {files : List FileItem}
    (strategy : List (List Call)) (h : Found outer next (.ok b, it))
    (hfiles : itemsFrom rt outer next = .ok files) :
    ∃ visited, walk rt strategy it = .ok visited ∧
      List.Forall₂ Seen visited (strategy.zip files) := by
  induction strategy generalizing it next b files with
  | nil => exact ⟨[], rfl, .nil⟩
  | cons calls strategy ih =>
    have hnext := hasNext_found rt h
    cases h with
    | finished eof =>
      cases hfiles
      refine ⟨[], ?_, .nil⟩
      rw [walk, hnext]
    | @item it item inner field token body between boundary_eq current valid aligned opened =>
      rw [itemsFrom] at hfiles
      cases hfind : Delimiter.find (delimiterOf token) body with
      | none =>
        rw [hfind] at hfiles
        cases hfiles
      | some i =>
        simp only [hfind] at hfiles
        cases hrest : items rt outer field token (body.drop i) with
        | error e =>
          rw [hrest] at hfiles
          cases hfiles
        | ok rest =>
          rw [hrest] at hfiles
          cases hfiles
          have hstream := hfind
          rw [← between.good.delimiter_eq, ← between.pending_eq] at hstream
          obtain ⟨given, multi, inner', n, hanswers, hpassed, hserves⟩ := answers_served
            between.good.ok aligned opened hstream between.good.bufSize calls
          have hleft := findNextItem_left rt item between boundary_eq opened hpassed hfind
          generalize hit : { it with
            multi, itemValid := false, currentItem := some (item, inner') } = it₂ at hleft
          have hhas : hasNext rt it₂ = findNextItem rt it₂ := by
            rw [hasNext, if_neg (by simp [← hit, between.not_eof]), if_neg (by simp [← hit])]
          have hvisited : ∃ visited, walk rt strategy it₂ = .ok visited ∧
              List.Forall₂ Seen visited (strategy.zip rest) := by
            rw [items_eq] at hrest
            generalize hr : findNextItem rt it₂ = r at hleft
            generalize nextItem rt outer field token (body.drop i) = next at hleft hrest
            cases r with
            | mk result it₃ =>
              cases result with
              | error e =>
                cases hleft
                cases hrest
              | ok b =>
                rw [walk_hasNext strategy (hhas.trans hr) (hasNext_found rt hleft)]
                exact ih hleft hrest
          obtain ⟨visited, hwalk, hseen⟩ := hvisited
          rw [between.pending_eq] at hserves
          refine ⟨(item, given) :: visited, ?_, .cons ⟨rfl, hserves⟩ hseen⟩
          rw [walk, hnext]
          simp only [current, hanswers, hit, hwalk]
          rfl

/-- If the whole body has these files, a consumer meets them in order, whatever it reads of each:
each call gets the next bytes, and the end is reported after the last one and from then on. -/
theorem walk_meets_items (rt : Runtime) (contentType : Option JString) (body : Bytes)
    (plan : List ℕ) (bufSize : ℕ) (files : List FileItem) (strategy : List (List Call))
    (h : ∀ boundary, getBoundary rt contentType = some boundary →
      boundary.length + BOUNDARY_PREFIX.length < bufSize)
    (hfiles : itemsOf rt contentType body = .ok files) :
    ∃ it visited, (getItemIterator rt bufSize contentType ⟨body, plan⟩).1 = .ok it ∧
      walk rt strategy it = .ok visited ∧
      List.Forall₂ Seen visited (strategy.zip files) := by
  rw [itemsOf] at hfiles
  by_cases hmultipart : (contentType.filter fun c => MULTIPART <+: lower rt c).isNone = true
  · rw [if_pos hmultipart] at hfiles
    cases hfiles
  rw [if_neg hmultipart] at hfiles
  cases hboundary : getBoundary rt contentType with
  | none =>
    rw [hboundary] at hfiles
    cases hfiles
  | some boundary =>
    simp only [hboundary] at hfiles
    rw [items_eq] at hfiles
    obtain ⟨⟨result, it⟩, hfound, heq⟩ :=
      getItemIterator_found body plan hmultipart hboundary (h boundary hboundary)
    rw [heq]
    generalize nextItem rt boundary none boundary body = next at hfound hfiles
    cases result with
    | error e =>
      cases hfound
      cases hfiles
    | ok b =>
      obtain ⟨visited, hwalk, hseen⟩ := walk_found strategy hfound hfiles
      exact ⟨it, visited, rfl, hwalk, hseen⟩

/-- Two files of which the first is left after one byte. -/
theorem walk_leaves_a_file :
    ∃ it visited, (getItemIterator asciiRuntime 16 (some (formContentType (ofString "B7")))
        ⟨formBody (latin1 (ofString "B7")) [note, note] [], [3, 1]⟩).1 = .ok it ∧
      walk asciiRuntime [[.read 1], [.skip 2, .read 9]] it = .ok visited ∧
      List.Forall₂ Seen visited
        ([[.read 1], [.skip 2, .read 9]].zip ([note, note].map FormPart.item)) := by
  refine walk_meets_items asciiRuntime _ _ [3, 1] 16 _ [[.read 1], [.skip 2, .read 9]]
    (fun boundary h => ?_)
    (itemsOf_form documented_asciiRuntime (by decide) (by decide) (fun p hp => ?_)
      (marker_terminator_whole []))
  · rw [length_boundary_form asciiRuntime (by decide) (by decide) boundary h]
    decide
  · simp only [List.mem_cons, List.not_mem_nil, or_false, or_self] at hp
    exact hp ▸ sendable_note

end FileUploadBase
