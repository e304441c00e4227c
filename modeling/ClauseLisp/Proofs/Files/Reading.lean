import ClauseLisp.Proofs.Builtins.Calls
import ClauseLisp.Proofs.MemoKey.Forcing
import ClauseLisp.Proofs.Text.Encoding

/-!
# Reading a file

An opened file is a lazy list whose nodes all have the same iterator, which reads the
next character from the stream behind a handle.  As long as nobody else reads from that
stream or closes it, the last node of the list and the stream stand at the same place
of the file: this is the invariant `ReadsOn`.  Forcing the node moves both by one
character (`ReadsOn.force_char`), and fails or ends where no character starts.

Between two forcings anything else may happen (`FileUntouched`).

## Main results

* `ReadsOn.force_char`, `ReadsOn.force_end`, `ReadsOn.force_broken` — what forcing the
  list does, by what follows in the file.
* `file_reads_exactly` — an opened file gives the characters of the longest text that it
  starts with, and then ends or fails.
-/

namespace ClauseLisp

open Run

/-! ## What must not be disturbed -/

/-- A node that reads the next character from the file behind a handle, and has not done so yet. -/
structure LazyNode.Reads (n : LazyNode) (handle : Nat) : Prop where
  iterator : n.iterator = .func Builtin.readCharName
  state : n.state = .int handle
  fresh : n.outcome = none

/-- Between two states nobody has read from the file behind a handle, through a list or otherwise,
nor closed it; and the name of the builtin that reads it has been left to the builtins. -/
structure FileUntouched (handle : Nat) (s t : State) : Prop where
  nodes : ∀ (node : Nat) (n : LazyNode), s.nodes[node]? = some n → n.Reads handle →
    t.nodes[node]? = some n
  stream : t.streams[handle]? = s.streams[handle]?
  free : t.LeavesToBuiltins Builtin.readCharName

/-- Elements are read off a list one after the other, by forcing what is left of it on some level,
and anything that does not disturb the file may happen in between. -/
inductive ReadOff (handle : Nat) (s : State) (list : Value) : List Value → Value → State → Prop
  | opened {t : State} (h : FileUntouched handle s t) : ReadOff handle s list [] list t
  | forced {t t' u : State} {items : List Value} {left head next : Value} {fuel level : Nat}
      {context : String} (h : ReadOff handle s list items left t)
      (hForce : uncons (.ofMachine (fuel + 1) level) context left t =
        (.ok (some (head, next)), t'))
      (hAfter : FileUntouched handle t' u) : ReadOff handle s list (items ++ [head]) next u

/-! ## The step -/

/-- A list is what is left of an open file, and the stream of the file stands where the list
does. -/
structure ReadsOn (handle : Nat) (path : String) (rest : List UInt8) (list : Value) (s : State) :
    Prop where
  node : ∃ node n, list = .lazy node ∧ s.nodes[node]? = some n ∧ n.Reads handle
  stream : s.streams[handle]? = some ⟨path, some (.bytes rest)⟩
  free : s.LeavesToBuiltins Builtin.readCharName

theorem ReadsOn.untouched {handle : Nat} {path : String} {rest : List UInt8} {list : Value}
    {s t : State} (h : ReadsOn handle path rest list s) (hAfter : FileUntouched handle s t) :
    ReadsOn handle path rest list t where
  node := by
    obtain ⟨node, n, hList, hNode, hReads⟩ := h.node
    exact ⟨node, n, hList, hAfter.nodes node n hNode hReads, hReads⟩
  stream := hAfter.stream.trans h.stream
  free := hAfter.free

/-- A state in which a file has been read. -/
def State.streamed (s : State) (handle : Nat) (stream : Stream) : State :=
  { s with streams := s.streams.modify handle fun _ => stream }

/-- What the builtin that reads characters makes of a reading. -/
def afterReading (handle : Nat) (types : Ty.Registry) :
    Except EvalCause (Option Char) → Except Stop Value
  | .error cause => .error (.error (.eval cause))
  | .ok none => .ok .nil
  | .ok (some c) => .ok (.cell (.str (String.singleton c))
      (.cell (.int handle) .nil (.fixed Ty.int)) (.fixed (types.join Ty.str Ty.int)))

section

variable {handle : Nat} {s : State} {stream : Stream}

theorem readNext_apply (h : s.streams[handle]? = some stream) :
    readNext handle s =
      (afterReading handle s.program.types stream.read.1, s.streamed handle stream.read.2) := by
  have hIndex : handleIndex? (handle : Int) = some handle := rfl
  simp only [readNext, hIndex, get_bind_apply, h]
  match hRead : stream.read with
  | (.error cause, after) => rfl
  | (.ok none, after) => rfl
  | (.ok (some c), after) => rfl

/-- Calling the iterator of an open file reads one character. -/
theorem call_readChar (h : s.streams[handle]? = some stream)
    (hFree : s.LeavesToBuiltins Builtin.readCharName) (fuel level : Nat) :
    Caller.ofMachine (fuel + 1) level (.func Builtin.readCharName) [.int handle] s =
      (afterReading handle s.program.types stream.read.1, s.streamed handle stream.read.2) := by
  have hCalled : exec (fuel + 1) level (.call (.func Builtin.readCharName) [.int handle]) s = _ :=
    exec_call_builtin rfl hFree rfl rfl fuel level
  rw [Caller.ofMachine, hCalled]
  have hRun := readNext_apply h
  cases hResult : stream.read.1 with
  | error cause =>
      rw [hResult] at hRun
      exact mapError_error hRun _
  | ok next =>
      rw [hResult] at hRun
      cases next with
      | none => exact mapError_ok hRun _
      | some c => exact mapError_ok hRun _

end

/-! ## Forcing a fresh node -/

section

variable {call : Caller} {s s' : State} {node : Nat} {n : LazyNode} {result : Value}

/-- What the iterator of a fresh node answers is recorded. -/
theorem force_answered {step : IterStep} (hNode : s.nodes[node]? = some n)
    (hFresh : n.outcome = none) (hCall : call n.iterator [n.state] s = (.ok result, s'))
    (hStep : IterStep.ofValue? result = some step) :
    force call node s = recordStep node n.iterator step s' := by
  rw [force_of_fresh hNode hFresh, bind_apply_ok hCall, LazyNode.settle, hStep]

theorem force_finish (hNode : s.nodes[node]? = some n) (hFresh : n.outcome = none)
    (hCall : call n.iterator [n.state] s = (.ok result, s'))
    (hStep : IterStep.ofValue? result = some .finish) (hStill : s'.nodes.outcome? node = none) :
    force call node s = (.ok .ended, s'.settled node n.iterator .finish) := by
  rw [force_answered hNode hFresh hCall hStep]
  simp only [recordStep, get_bind_apply, hStill]
  rfl

theorem force_advance {head state : Value} (hNode : s.nodes[node]? = some n)
    (hFresh : n.outcome = none) (hCall : call n.iterator [n.state] s = (.ok result, s'))
    (hStep : IterStep.ofValue? result = some (.advance head state))
    (hStill : s'.nodes.outcome? node = none) :
    force call node s = (.ok (.item head (.lazy s'.nodes.size)),
      s'.settled node n.iterator (.advance head state)) := by
  rw [force_answered hNode hFresh hCall hStep]
  simp only [recordStep, get_bind_apply, hStill]
  rfl

theorem uncons_stopped {context : String} {list : Value} {stop : Stop}
    (hList : list.untagged = .lazy node) (hForce : force call node s = (.error stop, s')) :
    uncons call context list s = (.error stop, s') := by
  unfold uncons
  rw [hList]
  show (force call node >>= _) s = _
  rw [bind_apply, hForce]

end

/-! ## Forcing the list of a file -/

namespace ReadsOn

variable {handle : Nat} {path : String} {rest : List UInt8} {list : Value} {s : State}
  (h : ReadsOn handle path rest list s) (fuel level : Nat) (context : String)

include h

/-- The iterator of the last node reads from the stream. -/
theorem call_iterator {n : LazyNode} (hReads : n.Reads handle) :
    Caller.ofMachine (fuel + 1) level n.iterator [n.state] s =
      (afterReading handle s.program.types (Stream.read ⟨path, some (.bytes rest)⟩).1,
        s.streamed handle (Stream.read ⟨path, some (.bytes rest)⟩).2) := by
  rw [hReads.iterator, hReads.state]
  exact call_readChar h.stream h.free fuel level

/-- **Where a character follows in the file, forcing the list gives it**, and what is left of the
list stands after it. -/
theorem force_char {c : Char} {after : List UInt8}
    (hDecoded : Text.decodeUtf8 rest = .char c after) :
    ∃ next t, uncons (.ofMachine (fuel + 1) level) context list s =
        (.ok (some (.str (String.singleton c), next)), t) ∧ ReadsOn handle path after next t := by
  obtain ⟨node, n, rfl, hNode, hReads⟩ := h.node
  have hRead : Stream.read ⟨path, some (.bytes rest)⟩ =
      (.ok (some c), ⟨path, some (.bytes after)⟩) := by
    simp only [Stream.read, hDecoded]
  have hCall := h.call_iterator fuel level hReads
  rw [hRead] at hCall
  have hStill : s.nodes.outcome? node = none :=
    (LazyNodes.outcome?_of_getElem? hNode).trans hReads.fresh
  have hForce := force_advance hNode hReads.fresh hCall rfl hStill
  have hOther : node ≠ s.nodes.size := Nat.ne_of_lt (Array.getElem?_eq_some_iff.mp hNode).1
  refine ⟨_, _, uncons_item rfl hForce, ?_, ?_, ?_⟩
  · refine ⟨_, { iterator := n.iterator, state := .int handle }, rfl, ?_, hReads.iterator, rfl, rfl⟩
    show ((s.nodes.push _).modify node _)[s.nodes.size]? = _
    rw [Array.getElem?_modify, if_neg hOther, Array.getElem?_push_size]
  · simp [State.settled, State.streamed, Array.getElem?_modify, h.stream]
  · exact ⟨h.free.function, h.free.parent, h.free.host⟩

/-- At the end of the file the list ends. -/
theorem force_end (hEnd : rest = []) :
    ∃ t, uncons (.ofMachine (fuel + 1) level) context list s = (.ok none, t) := by
  obtain ⟨node, n, rfl, hNode, hReads⟩ := h.node
  subst hEnd
  have hCall := h.call_iterator fuel level hReads
  have hStill : s.nodes.outcome? node = none :=
    (LazyNodes.outcome?_of_getElem? hNode).trans hReads.fresh
  exact ⟨_, uncons_ended rfl (force_finish hNode hReads.fresh hCall rfl hStill)⟩

/-- **Where no character starts, and the file goes on, forcing the list fails.** -/
theorem force_broken (hMore : rest ≠ [])
    (hBroken : ∀ c after, Text.decodeUtf8 rest ≠ .char c after) :
    ∃ cause t, uncons (.ofMachine (fuel + 1) level) context list s =
      (.error (.error (.eval cause)), t) := by
  obtain ⟨node, n, rfl, hNode, hReads⟩ := h.node
  have hRead : ∃ cause stream, Stream.read ⟨path, some (.bytes rest)⟩ = (.error cause, stream) := by
    obtain ⟨first, more, rfl⟩ := List.exists_cons_of_ne_nil hMore
    simp only [Stream.read]
    cases hDecoded : Text.decodeUtf8 (first :: more) with
    | finished => exact absurd hDecoded (Text.decodeUtf8_ne_finished first more)
    | char c after => exact absurd hDecoded (hBroken c after)
    | invalid after => exact ⟨_, _, rfl⟩
    | cut => exact ⟨_, _, rfl⟩
  obtain ⟨cause, stream, hRead⟩ := hRead
  have hCall := h.call_iterator fuel level hReads
  rw [hRead] at hCall
  have hForce := force_of_refused hNode hReads.fresh (.inl hCall)
  exact ⟨cause, _, uncons_stopped rfl hForce⟩

end ReadsOn

/-! ## The whole file -/

/-- A character as an element of the list that a file is. -/
def Value.ofChar (c : Char) : Value := .str (String.singleton c)

section

variable {handle : Nat} {path : String} {s t : State} {list left : Value} {items : List Value}
  {cs : List Char} {after : List UInt8}

/-- **What has been read off are the first characters of the file**, and the list stands after
them. Forcing gives nothing beyond the text that the file starts with. -/
theorem ReadOff.readsOn (h : ReadOff handle s list items left t)
    (hOpened : ∀ t, FileUntouched handle s t →
      ReadsOn handle path (Text.encoded cs ++ after) list t)
    (hAfter : ∀ c rest, Text.decodeUtf8 after ≠ .char c rest) :
    ∃ done todo, cs = done ++ todo ∧ items = done.map Value.ofChar ∧
      ReadsOn handle path (Text.encoded todo ++ after) left t := by
  induction h with
  | opened h => exact ⟨[], cs, rfl, rfl, hOpened _ h⟩
  | @forced t t' u items left head next fuel level context _ hForce hUntouched ih =>
      obtain ⟨done, todo, hSplit, hItems, hReadsOn⟩ := ih
      cases todo with
      | nil =>
          by_cases hEnd : after = []
          · obtain ⟨t₂, hEnds⟩ := hReadsOn.force_end fuel level context (by simp [hEnd])
            rw [hEnds] at hForce
            cases hForce
          · obtain ⟨cause, t₂, hFails⟩ :=
              hReadsOn.force_broken fuel level context hEnd hAfter
            rw [hFails] at hForce
            cases hForce
      | cons c todo =>
          have hDecoded : Text.decodeUtf8 (Text.encoded (c :: todo) ++ after) =
              .char c (Text.encoded todo ++ after) :=
            Text.decodeUtf8_eq_char_iff.mpr (by simp)
          obtain ⟨next', t₂, hGives, hLater⟩ := hReadsOn.force_char fuel level context hDecoded
          rw [hGives] at hForce
          cases hForce
          exact ⟨done ++ [c], todo, by simp [hSplit], by simp [hItems, Value.ofChar],
            hLater.untouched hUntouched⟩

end

/-- A state in which a file has been opened. -/
def State.withFile (s : State) (path : String) (content : List UInt8) : State :=
  { s with
    streams := s.streams.push ⟨path, some (.bytes content)⟩
    unclaimed := s.streams.size :: s.unclaimed
    nodes := s.nodes.push
      { iterator := .func Builtin.readCharName, state := .int s.streams.size } }

theorem openPath_apply {path : String} {content : List UInt8} {s : State}
    (h : s.files.find path = some (.file content)) :
    openPath path s = (.ok (.lazy s.nodes.size), s.withFile path content) := by
  simp only [openPath, get_bind_apply, h]
  rfl

/-- The list that stands for a file starts where the file does. -/
theorem ReadsOn.of_withFile {path : String} {content : List UInt8} {s t : State}
    (h : FileUntouched s.streams.size (s.withFile path content) t) :
    ReadsOn s.streams.size path content (.lazy s.nodes.size) t := by
  have hReads : LazyNode.Reads
      { iterator := .func Builtin.readCharName, state := .int s.streams.size }
      s.streams.size := ⟨rfl, rfl, rfl⟩
  refine ⟨⟨_, _, rfl, h.nodes _ _ Array.getElem?_push_size hReads, hReads⟩, ?_, h.free⟩
  rw [h.stream]
  exact Array.getElem?_push_size

/-- **An opened file gives exactly the longest text that it starts with.** However much has been
read off the list, and whatever else has happened meanwhile without touching the file, the elements
so far are the first characters of that text; forcing the list once more gives its next character,
or after its last one ends the list, if that is the whole content, and else fails. -/
theorem file_reads_exactly {b : Builtin} (hFind : Builtin.find? "open" = some b)
    {argument : Value} {path : String} (hArgument : argument.untagged = .str path)
    {content : List UInt8} {s : State} (hFile : s.files.find path = some (.file content))
    (call : Caller) (n : Nat) :
    ∃ cs, Text.LongestText content cs ∧
      ∃ list s₁, b.called call n [argument] s = (.ok list, s₁) ∧
        ∀ items left t, ReadOff s.streams.size s₁ list items left t →
          items = (cs.take items.length).map Value.ofChar ∧
            ∀ fuel level context,
              (∀ c, cs[items.length]? = some c → ∃ next t',
                uncons (.ofMachine (fuel + 1) level) context left t =
                  (.ok (some (.ofChar c, next)), t') ∧
                ReadOff s.streams.size s₁ list (items ++ [.ofChar c]) next t') ∧
              (cs[items.length]? = none → content = Text.encoded cs → ∃ t',
                uncons (.ofMachine (fuel + 1) level) context left t = (.ok none, t')) ∧
              (cs[items.length]? = none → content ≠ Text.encoded cs → ∃ cause t',
                uncons (.ofMachine (fuel + 1) level) context left t =
                  (.error (.error (.eval cause)), t')) := by
  obtain ⟨cs, after, rfl, hLongest, hAfter⟩ := Text.exists_longestText content
  obtain rfl : b = _ := (Option.some.inj hFind).symm
  have hRun : ∀ call n, Intrinsic.run call n [argument] .openFile s = openPath path s := by
    intro call n
    simp only [Intrinsic.run, hArgument]
  have hOpen := openPath_apply hFile
  refine ⟨cs, hLongest, _, _, mapError_ok ((hRun call n).trans hOpen) _, ?_⟩
  intro items left t hReadOff
  obtain ⟨done, todo, hSplit, hItems, hReadsOn⟩ :=
    hReadOff.readsOn (fun _ => .of_withFile) hAfter
  subst hSplit hItems
  have hNext : (done ++ todo)[(done.map Value.ofChar).length]? = todo[0]? := by
    simp [List.getElem?_append]
  rw [hNext]
  refine ⟨by simp, fun fuel level context => ?_⟩
  cases todo with
  | nil =>
      refine ⟨fun c hFirst => absurd hFirst (by simp), fun _ hWhole => ?_, fun _ hMore => ?_⟩
      · exact hReadsOn.force_end fuel level context (by simpa using hWhole)
      · exact hReadsOn.force_broken fuel level context (by simpa using hMore) hAfter
  | cons c todo =>
      have hSome : ¬ (c :: todo)[0]? = none := by simp
      refine ⟨fun c' hFirst => ?_, fun hEnd => absurd hEnd hSome, fun hEnd => absurd hEnd hSome⟩
      obtain rfl : c = c' := by simpa using hFirst
      have hDecoded : Text.decodeUtf8 (Text.encoded (c :: todo) ++ after) =
          .char c (Text.encoded todo ++ after) :=
        Text.decodeUtf8_eq_char_iff.mpr (by simp)
      obtain ⟨next, t', hGives, hLater⟩ := hReadsOn.force_char fuel level context hDecoded
      have hStays : FileUntouched s.streams.size t' t' := ⟨fun _ _ h _ => h, rfl, hLater.free⟩
      exact ⟨next, t', hGives, hReadOff.forced hGives hStays⟩

namespace Session

/-- The encodings of two characters, and one of a surrogate, which is no character. -/
def surrogateFile : List UInt8 := [0xC3, 0xA9, 0x41, 0xED, 0xA0, 0x80, 0x42]

/-- A session in which all files are this one. -/
def surrogates : State := { Session.start {} with files := ⟨fun _ => some (.file surrogateFile)⟩ }

end Session

/-- The two characters are read, and then reading fails, though another one follows. -/
theorem file_reads_exactly_of_surrogates :
    ∃ b list s₁ left t cause t', Builtin.find? "open" = some b ∧
      b.called (.ofMachine 1 0) 1 [.str "f"] Session.surrogates = (.ok list, s₁) ∧
      ReadOff 0 s₁ list [.str "é", .str "A"] left t ∧
      uncons (.ofMachine 1 0) "head" left t = (.error (.error (.eval cause)), t') := by
  have hFile : Session.surrogates.files.find "f" = some (.file Session.surrogateFile) := rfl
  have hArgument : (Value.str "f").untagged = .str "f" := rfl
  obtain ⟨cs, hLongest, list, s₁, hOpen, hReads⟩ :=
    file_reads_exactly rfl hArgument hFile (.ofMachine 1 0) 1
  have hText : cs = ['é', 'A'] := by
    have hSurrogate : Text.decodeUtf8 [0xED, 0xA0, 0x80, 0x42] = .invalid [0x42] := by decide
    have hTwo : Text.LongestText (Text.encoded ['é', 'A'] ++ [0xED, 0xA0, 0x80, 0x42])
        ['é', 'A'] := Text.longestText_of_append fun c rest h => by
      rw [hSurrogate] at h
      cases h
    exact hLongest.unique hTwo
  subst hText
  have hProgram : s₁.program = {} := (congrArg (fun run => run.2.program) hOpen).symm
  have hHosts : s₁.hosts = {} := (congrArg (fun run => run.2.hosts) hOpen).symm
  have hFree : s₁.LeavesToBuiltins Builtin.readCharName :=
    ⟨by rw [hProgram]; rfl, by rw [hProgram]; rfl, by rw [hHosts]; rfl⟩
  have hOpened : ReadOff 0 s₁ list [] list s₁ := .opened ⟨fun _ _ h _ => h, rfl, hFree⟩
  obtain ⟨next, t, -, hFirst⟩ := ((hReads _ _ _ hOpened).2 0 0 "head").1 'é' rfl
  obtain ⟨left, t', -, hSecond⟩ := ((hReads _ _ _ hFirst).2 0 0 "head").1 'A' rfl
  obtain ⟨cause, t'', hFails⟩ :=
    ((hReads _ _ _ hSecond).2 0 0 "head").2.2 rfl (by decide)
  exact ⟨_, list, s₁, left, t', cause, t'', rfl, hOpen, hSecond, hFails⟩

end ClauseLisp
