import Ucser.Lib.Lines

/-!
# Streams of server-sent events

What a browser reads from a stream of the type `text/event-stream`: lines of the form
`field: value`, and a blank line behind every event.  Events of the type `message` are read,
from their `data` fields alone.

* `events` — the data of the events in a stream, as far as it has arrived.
* `frame` — an event with one line of data; `events_frame_append` — it is read back.
* `events_cut` — **of a stream of frames that breaks off, the first data are read**, each as
  it was sent; `events_frames` — and all of them from the whole stream.
-/

namespace Ucser
namespace EventStream

/-- The name of the field of a line: what is in front of the first colon. -/
def fieldName (line : List Char) : List Char := line.takeWhile (· ≠ ':')

/-- The value of the field: what is behind the colon and at most one blank. -/
def fieldValue (line : List Char) : List Char :=
  match (line.dropWhile (· ≠ ':')).tail with
  | ' ' :: value => value
  | value => value

/-- The events that the lines dispatch, with the data collected so far.  A comment has an empty
name. -/
def dispatch (data : List Char) : List (List Char) → List (List Char)
  | [] => []
  | line :: lines =>
      if line = [] then
        if data = [] then dispatch [] lines else data.dropLast :: dispatch [] lines
      else if fieldName line = ['d', 'a', 't', 'a'] then
        dispatch (data ++ fieldValue line ++ ['\n']) lines
      else dispatch data lines

/-- The data of the events in a stream. -/
def events (stream : List Char) : List (List Char) :=
  dispatch [] ((Lines.splitLines stream).1.map List.dropLast)

/-- An event with one line of data. -/
def frame (data : List Char) : List Char :=
  'd' :: 'a' :: 't' :: 'a' :: ':' :: ' ' :: (data ++ ['\n', '\n'])

/-- The text has no line end in it. -/
structure Unbroken (text : List Char) : Prop where
  lf : '\n' ∉ text
  cr : '\r' ∉ text

variable {data : List Char} {messages : List (List Char)}

/-- The line of a frame. -/
def dataLine (data : List Char) : List Char := 'd' :: 'a' :: 't' :: 'a' :: ':' :: ' ' :: data

theorem dataLine_ne_nil (data : List Char) : dataLine data ≠ [] := List.cons_ne_nil _ _

theorem frame_eq (data : List Char) : frame data = dataLine data ++ '\n' :: ['\n'] := rfl

theorem Unbroken.dataLine (h : Unbroken data) : Unbroken (dataLine data) where
  lf := by simp [EventStream.dataLine, h.lf]
  cr := by simp [EventStream.dataLine, h.cr]

theorem fieldName_dataLine (data : List Char) : fieldName (dataLine data) = ['d', 'a', 't', 'a'] := rfl

theorem fieldValue_dataLine (data : List Char) : fieldValue (dataLine data) = data := rfl

theorem dispatch_dataLine (data : List Char) (lines : List (List Char)) :
    dispatch [] (dataLine data :: [] :: lines) = data :: dispatch [] lines := by
  rw [dispatch, if_neg (dataLine_ne_nil data), if_pos (fieldName_dataLine data), fieldValue_dataLine, dispatch,
    if_pos rfl, if_neg (by simp), List.nil_append, List.dropLast_concat]

theorem splitLines_of_unbroken {text : List Char} (h : Unbroken text) :
    Lines.splitLines text = ([], text) := by
  have huniversal := Lines.universal_append_of_no_cr [] h.cr
  rw [List.append_nil, Lines.universal_nil, List.append_nil] at huniversal
  rw [Lines.splitLines, huniversal]
  have hlf := h.lf
  clear h huniversal
  induction text with
  | nil => rfl
  | cons c text ih =>
      obtain ⟨hc, hrest⟩ := List.ne_and_not_mem_of_not_mem_cons hlf
      rw [Lines.split, if_neg (Ne.symm hc), ih hrest]

/-- **A frame is read back**, whatever comes behind it. -/
theorem events_frame_append (h : Unbroken data) (rest : List Char) :
    events (frame data ++ rest) = data :: events rest := by
  have hcr : '\r' ∉ frame data := by
    rw [frame_eq, List.mem_append, not_or]
    exact ⟨h.dataLine.cr, by decide⟩
  have hsplit : (Lines.splitLines (frame data ++ rest)).1 =
      (dataLine data ++ ['\n']) :: ['\n'] :: (Lines.splitLines rest).1 := by
    rw [Lines.splitLines, Lines.universal_append_of_no_cr rest hcr, frame_eq, List.append_assoc]
    have hline := Lines.split_append [] ('\n' :: Lines.universal false rest) h.dataLine.lf
    rw [List.nil_append] at hline
    exact (congrArg Prod.fst hline).trans rfl
  rw [events, hsplit, List.map_cons, List.map_cons, List.dropLast_concat]
  exact dispatch_dataLine data _

/-- Before the blank line has arrived there is no event. -/
theorem events_of_cut_frame (h : Unbroken data) {received : List Char}
    (hcut : received <+: frame data) (hne : received ≠ frame data) : events received = [] := by
  have hframe : frame data = (dataLine data ++ ['\n']) ++ ['\n'] := by simp [frame_eq]
  rw [hframe] at hcut hne
  rcases List.prefix_concat_iff.mp hcut with heq | hcut
  · exact absurd heq hne
  rcases List.prefix_concat_iff.mp hcut with rfl | hcut
  · have hsplit :=
      Lines.splitLines_append [] [] (dataLine_ne_nil data) h.dataLine.lf h.dataLine.cr
    rw [List.nil_append] at hsplit
    rw [events, hsplit]
    show dispatch [] [(dataLine data ++ ['\n']).dropLast] = []
    rw [List.dropLast_concat, dispatch, if_neg (dataLine_ne_nil data),
      if_pos (fieldName_dataLine data), dispatch]
  · have hunbroken : Unbroken received :=
      ⟨fun hlf => h.dataLine.lf (hcut.subset hlf), fun hcr => h.dataLine.cr (hcut.subset hcr)⟩
    rw [events, splitLines_of_unbroken hunbroken]
    rfl

/-- **Of a stream of frames that breaks off, the first data are read.**  By induction on the
frames sent. -/
theorem events_cut (h : ∀ data ∈ messages, Unbroken data) {received : List Char}
    (hcut : received <+: messages.flatMap frame) : events received <+: messages := by
  induction messages generalizing received with
  | nil =>
      rw [List.prefix_nil.mp hcut]
      exact List.nil_prefix
  | cons data messages ih =>
      obtain ⟨hdata, hrest⟩ := List.forall_mem_cons.mp h
      rw [List.flatMap_cons] at hcut
      rcases List.prefix_or_prefix_of_prefix hcut (List.prefix_append (frame data) _) with
        hshort | ⟨rest, rfl⟩
      · by_cases heq : received = frame data
        · rw [heq, ← List.append_nil (frame data), events_frame_append hdata]
          exact List.cons_prefix_cons.mpr ⟨rfl, List.nil_prefix⟩
        · rw [events_of_cut_frame hdata hshort heq]
          exact List.nil_prefix
      · rw [events_frame_append hdata]
        have htail : rest <+: messages.flatMap frame :=
          (List.prefix_append_right_inj (frame data)).mp hcut
        exact List.cons_prefix_cons.mpr ⟨rfl, ih hrest htail⟩

/-- Every frame that has arrived whole is read. -/
theorem events_frames (h : ∀ data ∈ messages, Unbroken data) (rest : List Char) :
    events (messages.flatMap frame ++ rest) = messages ++ events rest := by
  induction messages with
  | nil => rfl
  | cons data messages ih =>
      obtain ⟨hdata, hrest⟩ := List.forall_mem_cons.mp h
      rw [List.flatMap_cons, List.append_assoc, events_frame_append hdata, ih hrest]
      rfl

end EventStream
end Ucser
