import DatabaseTracing.Log.Sink
import DatabaseTracing.Proofs.Text.LossyDecoding

/-! # What a writer has received

Writers are made, handles to them are shared, and bytes are written through any handle. A
handle shows the bytes that have come through all handles of its writer, read as one
sequence of bytes; how they were cut into writes is not seen.
-/
namespace DatabaseTracing.Sinks

/-- Handles are told by their place in the order in which they were given out. -/
inductive Event where
  /-- A new writer is made, and its first handle is given out. -/
  | create
  | share (handle : Nat)
  | write (handle : Nat) (data : List UInt8)

/-- The store of all writers and the handles given out. -/
structure Desk where
  sinks : Sinks
  handles : List Sink
  /-- What the writes have answered. -/
  answers : List Nat

namespace Desk

def initial : Desk := ⟨.empty, [], []⟩

def step (d : Desk) : Event → Desk
  | .create => { d with sinks := d.sinks.create.2, handles := d.handles ++ [d.sinks.create.1] }
  | .share i => { d with handles := d.handles ++ (d.handles[i]?.map Sink.share).toList }
  | .write i data =>
    match d.handles[i]? with
    | some s => { d with
        sinks := (d.sinks.write s data).2
        answers := d.answers ++ [(d.sinks.write s data).1] }
    | none => d

def run (es : List Event) : Desk := es.foldl step initial

/-- The text that a handle shows. -/
def shown (d : Desk) (i : Nat) : Option String := d.handles[i]?.map d.sinks.contents

theorem run_concat (es : List Event) (e : Event) : run (es ++ [e]) = (run es).step e := by
  rw [run, List.foldl_append]
  rfl

end Desk

/-! ## What a history tells -/

/-- Writers are numbered in the order in which they were made. -/
structure Chronicle where
  writers : Nat
  /-- The writer of each handle. -/
  owners : List Nat
  /-- The bytes of each write and the writer that they were for. -/
  writes : List (Nat × List UInt8)

namespace Chronicle

def initial : Chronicle := ⟨0, [], []⟩

def step (c : Chronicle) : Event → Chronicle
  | .create => { c with writers := c.writers + 1, owners := c.owners ++ [c.writers] }
  | .share i => { c with owners := c.owners ++ c.owners[i]?.toList }
  | .write i data => { c with writes := c.writes ++ (c.owners[i]?.map (·, data)).toList }

def run (es : List Event) : Chronicle := es.foldl step initial

/-- All bytes that were for a writer, in order. -/
def received (c : Chronicle) (writer : Nat) : List UInt8 :=
  (c.writes.filter (·.1 = writer)).flatMap (·.2)

end Chronicle

variable {d : Desk} {c : Chronicle} {i j : Nat}

theorem Chronicle.received_write {owner : Nat} (howner : c.owners[i]? = some owner)
    (data : List UInt8) (writer : Nat) : (c.step (.write i data)).received writer =
      c.received writer ++ if owner = writer then data else [] := by
  simp only [step, received, howner, Option.map_some, Option.toList_some, List.filter_append,
    List.flatMap_append, List.filter_singleton]
  by_cases h : owner = writer <;> simp [h]

theorem Chronicle.received_write_other {writer : Nat} (hother : c.owners[i]? ≠ some writer)
    (data : List UInt8) : (c.step (.write i data)).received writer = c.received writer := by
  cases howner : c.owners[i]? with
  | none => simp [step, howner]
  | some owner =>
    have hne : owner ≠ writer := fun ho => hother (ho ▸ howner)
    rw [received_write howner, if_neg hne, List.append_nil]

/-- The store is as the history tells. -/
structure Desk.Matches (d : Desk) (c : Chronicle) : Prop where
  buffers : d.sinks.buffers = (List.range c.writers).map c.received
  handles : d.handles = c.owners.map Sink.mk
  owners : ∀ writer ∈ c.owners, writer < c.writers
  writes : ∀ w ∈ c.writes, w.1 < c.writers
  answers : d.answers = c.writes.map (·.2.length)

namespace Desk

theorem Matches.handle? (h : d.Matches c) (i : Nat) : d.handles[i]? = c.owners[i]?.map Sink.mk := by
  rw [h.handles, List.getElem?_map]

theorem matches_initial : initial.Matches .initial := ⟨rfl, rfl, nofun, nofun, rfl⟩

theorem Matches.create (h : d.Matches c) : (d.step .create).Matches (c.step .create) where
  buffers := by
    have hnew : c.received c.writers = [] := by
      rw [Chronicle.received, List.filter_eq_nil_iff.mpr, List.flatMap_nil]
      intro w hw
      simpa using Nat.ne_of_lt (h.writes w hw)
    simp only [step, Sinks.create, Chronicle.step, h.buffers, List.range_succ, List.map_append,
      List.map_singleton]
    exact congrArg (_ ++ [·]) hnew.symm
  handles := by
    simp [step, Sinks.create, Chronicle.step, h.handles, h.buffers]
  owners writer hwriter := by
    rcases List.mem_append.mp hwriter with hold | hnew
    · exact Nat.lt_succ_of_lt (h.owners writer hold)
    · exact List.mem_singleton.mp hnew ▸ Nat.lt_succ_self _
  writes w hw := Nat.lt_succ_of_lt (h.writes w hw)
  answers := h.answers

theorem Matches.share (h : d.Matches c) (i : Nat) :
    (d.step (.share i)).Matches (c.step (.share i)) where
  buffers := h.buffers
  handles := by
    simp only [step, Chronicle.step, h.handles, List.getElem?_map, List.map_append]
    cases c.owners[i]? <;> rfl
  owners writer hwriter := by
    rcases List.mem_append.mp hwriter with hold | hnew
    · exact h.owners writer hold
    · exact h.owners writer (List.mem_of_getElem? (Option.mem_toList.mp hnew))
  writes := h.writes
  answers := h.answers

theorem Matches.write (h : d.Matches c) (i : Nat) (data : List UInt8) :
    (d.step (.write i data)).Matches (c.step (.write i data)) := by
  cases howner : c.owners[i]? with
  | none =>
    have hd : d.step (.write i data) = d := by simp [Desk.step, h.handle?, howner]
    have hc : c.step (.write i data) = c := by simp [Chronicle.step, howner]
    rwa [hd, hc]
  | some owner =>
    have hlt : owner < c.writers := h.owners owner (List.mem_of_getElem? howner)
    have hd : d.step (.write i data) =
        ⟨(d.sinks.write ⟨owner⟩ data).2, d.handles, d.answers ++ [data.length]⟩ := by
      rw [Desk.step, h.handle?, howner]
      rfl
    have hwrites : (c.step (.write i data)).writes = c.writes ++ [(owner, data)] := by
      simp [Chronicle.step, howner]
    have hreceived := funext (Chronicle.received_write howner data)
    rw [hd]
    refine ⟨?_, h.handles, h.owners, ?_, ?_⟩
    · rw [Sinks.write, h.buffers, hreceived]
      refine List.ext_getElem? fun writer => ?_
      rw [List.getElem?_modify, List.getElem?_map, List.getElem?_map]
      change _ = (List.range c.writers)[writer]?.map _
      rcases Nat.lt_or_ge writer c.writers with hw | hw
      · rw [List.getElem?_range hw]
        by_cases ho : owner = writer <;> simp [ho]
      · rw [List.getElem?_eq_none (by simpa using hw)]
        rfl
    · rw [hwrites]
      exact List.forall_mem_append.mpr ⟨h.writes, List.forall_mem_singleton.mpr hlt⟩
    · rw [hwrites, List.map_append, ← h.answers]
      rfl

theorem Matches.step (h : d.Matches c) (e : Event) : (d.step e).Matches (c.step e) := by
  cases e with
  | create => exact h.create
  | share i => exact h.share i
  | write i data => exact h.write i data

theorem matches_run (es : List Event) : (run es).Matches (.run es) := by
  suffices ∀ d c, Matches d c → (es.foldl step d).Matches (es.foldl Chronicle.step c) from
    this _ _ matches_initial
  induction es with
  | nil => exact fun _ _ h => h
  | cons e es ih => exact fun _ _ h => ih _ _ (h.step e)

theorem Matches.bytes (h : d.Matches c) {writer : Nat} (hwriter : writer ∈ c.owners) :
    d.sinks.bytes ⟨writer⟩ = c.received writer := by
  rw [Sinks.bytes, h.buffers, List.getD_eq_getElem?_getD, List.getElem?_map,
    List.getElem?_range (h.owners writer hwriter)]
  rfl

/-- A handle shows what its writer has received. -/
theorem Matches.shown (h : d.Matches c) (i : Nat) :
    d.shown i = c.owners[i]?.map fun writer => String.ofList (Lossy.decode (c.received writer)) := by
  rw [Desk.shown, h.handle?]
  cases howner : c.owners[i]? with
  | none => rfl
  | some writer =>
    have hbytes := h.bytes (List.mem_of_getElem? howner)
    rw [Option.map_some, Option.map_some, Option.map_some, Sinks.contents, hbytes]

end Desk

/-- What the handles show after a history. -/
structure Gathered (es : List Event) : Prop where
  /-- Each write accepts all its bytes. -/
  accepted : (Desk.run es).answers = (Chronicle.run es).writes.map (·.2.length)
  decoded : ∀ i writer text, (Chronicle.run es).owners[i]? = some writer →
    ((Desk.run es).shown i = some text ↔
      Lossy.Reads ((Chronicle.run es).received writer) text.toList)
  alike : ∀ i j, (Chronicle.run es).owners[i]? = (Chronicle.run es).owners[j]? →
    (Desk.run es).shown i = (Desk.run es).shown j
  unrelated : ∀ i j data, (Chronicle.run es).owners[j]? ≠ (Chronicle.run es).owners[i]? →
    (Desk.run (es ++ [.write j data])).shown i = (Desk.run es).shown i
  /-- However a text is cut into writes, it is shown. -/
  uncut : ∀ i writer text, (Chronicle.run es).owners[i]? = some writer →
    (Chronicle.run es).received writer = utf8Bytes text → (Desk.run es).shown i = some text

theorem writes_gathered (es : List Event) : Gathered es := by
  have h := Desk.matches_run es
  refine ⟨h.answers, fun i writer text howner => ?_, fun i j hij => ?_,
    fun i j data hij => ?_, fun i writer text howner hbytes => ?_⟩
  · rw [h.shown, howner, Option.map_some, Option.some.injEq, Lossy.reads_iff]
    exact ⟨fun ht => ht ▸ String.toList_ofList.symm, fun ht => ht ▸ String.ofList_toList⟩
  · rw [h.shown, h.shown, hij]
  · rw [Desk.run_concat, (h.step (.write j data)).shown, h.shown]
    cases hwriter : (Chronicle.run es).owners[i]? with
    | none => exact congrArg (Option.map _) hwriter
    | some writer =>
      refine (congrArg (Option.map _) hwriter).trans ?_
      rw [Option.map_some, Option.map_some, Chronicle.received_write_other (hwriter ▸ hij)]
  · rw [h.shown, howner, Option.map_some, hbytes, Lossy.decode_utf8Bytes, String.ofList_toList]

/-- A character whose bytes come through two handles, and one that is not completed. -/
example : (Desk.run [.create, .share 0, .write 0 [0xc3], .write 1 [0xa9, 0xe2, 0x82]]).shown 1 =
    some "é\ufffd" := by
  cbv

end DatabaseTracing.Sinks
