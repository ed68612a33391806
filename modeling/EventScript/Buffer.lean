import EventScript.Text.Lines

/-!
# Buffers

Generated code is appended to buffers.  A buffer remembers how much of it has
been taken out by `takeNew`.  A stack of buffers redirects output: writing goes
to the top one, and the global buffer below all others is always there.
-/

namespace EventScript

/-- Text to which more is appended, in two parts. -/
structure Buffer where
  /-- What was taken out already. -/
  taken : String := ""
  /-- What was written since. -/
  fresh : String := ""
  deriving DecidableEq, Repr

namespace Buffer

/-- A buffer that holds a text, none of it taken out. -/
def ofText (text : String) : Buffer :=
  { fresh := text }

/-- The text of a buffer. -/
def text (buffer : Buffer) : String :=
  buffer.taken ++ buffer.fresh

/-- Append a text. -/
def write (buffer : Buffer) (text : String) : Buffer :=
  { buffer with fresh := buffer.fresh ++ text }

/-- Append one line at a depth. -/
def writeLine (buffer : Buffer) (depth : Nat) (content : String) : Buffer :=
  buffer.write (String.ofList (Text.line depth content.toList))

/-- Append a text of several lines at a depth. -/
def writeBlock (buffer : Buffer) (depth : Nat) (content : String) : Buffer :=
  buffer.write (Text.block depth content)

/-- Take out what was written since the last time. -/
def takeNew (buffer : Buffer) : String × Buffer :=
  (buffer.fresh, { taken := buffer.text })

/-- The number of bytes of a buffer. -/
def size (buffer : Buffer) : Nat :=
  buffer.text.utf8ByteSize

/-- Whether a buffer holds nothing. -/
def isEmpty (buffer : Buffer) : Bool :=
  buffer.text.isEmpty

@[simp]
theorem text_ofText (content : String) : (ofText content).text = content := by
  simp [ofText, text]

@[simp]
theorem text_write (buffer : Buffer) (content : String) :
    (buffer.write content).text = buffer.text ++ content := by
  simp [write, text, String.append_assoc]

@[simp]
theorem text_takeNew (buffer : Buffer) : buffer.takeNew.2.text = buffer.text := by
  simp [takeNew, text]

end Buffer

/-- A global buffer and the buffers that output is redirected to. -/
structure BufferStack where
  global : Buffer := {}
  /-- The redirections, the innermost first. -/
  redirects : List Buffer := []

namespace BufferStack

/-- The buffer that receives output. -/
def current (stack : BufferStack) : Buffer :=
  stack.redirects.head?.getD stack.global

/-- Change the buffer that receives output. -/
def modifyCurrent (stack : BufferStack) (change : Buffer → Buffer) : BufferStack :=
  match stack.redirects with
  | [] => { stack with global := change stack.global }
  | top :: rest => { stack with redirects := change top :: rest }

/-- Redirect output to a buffer. -/
def push (stack : BufferStack) (buffer : Buffer) : BufferStack :=
  { stack with redirects := buffer :: stack.redirects }

/-- End the innermost redirection, if there is one, and return its buffer. -/
def pop (stack : BufferStack) : Option Buffer × BufferStack :=
  match stack.redirects with
  | [] => (none, stack)
  | top :: rest => (some top, { stack with redirects := rest })

/-- The number of redirections. -/
def depth (stack : BufferStack) : Nat :=
  stack.redirects.length

/-- Append a text to the global buffer. -/
def writeGlobal (stack : BufferStack) (text : String) : BufferStack :=
  { stack with global := stack.global.write text }

/-- Ending a redirection that was just begun gives back the stack. -/
@[simp]
theorem pop_push (stack : BufferStack) (buffer : Buffer) :
    (stack.push buffer).pop = (some buffer, stack) :=
  rfl

end BufferStack

end EventScript
