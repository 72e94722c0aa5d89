import EasyWebServer.Lib.CInt

/-!
# HTTP response messages

`Response` is an HTTP/1.1 response with its framing: a status, header fields,
and a body whose byte count is the value of the one `Content-Length` field.
The structure carries these facts, so a message that is not framed cannot be
built.  `encode` is the text of a message.

`status_eq_of_encode` says that the text determines the status.
-/

namespace EasyWebServer

namespace Http

open CString CInt

/-- The end of a line. -/
def crlf : Bytes := [CR, LF]

/-- The byte `' '`. -/
def space : UInt8 := 32

/-- The byte `':'`. -/
def colon : UInt8 := 58

/-- The text holds no end of line. -/
def OneLine (s : Bytes) : Prop := ∀ b ∈ s, b ≠ CR ∧ b ≠ LF

instance (s : Bytes) : Decidable (OneLine s) :=
  List.decidableBAll (fun b => b ≠ CR ∧ b ≠ LF) s

theorem oneLine_decimalNat (n : Nat) : OneLine (decimalNat n) := by
  intro b hb
  have hd := isDigit_of_mem_decimalNat hb
  constructor <;> rintro rfl <;> revert hd <;> decide

/-- A header field: a name without a colon, and a value, on one line. -/
structure Field where
  name : Bytes
  value : Bytes
  name_ne : name ≠ []
  name_line : OneLine name
  name_colon : colon ∉ name
  value_line : OneLine value

/-- The line of a header field. -/
def Field.encode (f : Field) : Bytes := f.name ++ [colon] ++ f.value ++ crlf

/-- The values of the `Content-Length` fields.  Names are compared without
regard to case. -/
def contentLengths (fields : List Field) : List Bytes :=
  (fields.filter (fun f => strcasecmp f.name (ascii "Content-Length"))).map Field.value

/-- A framed response. -/
structure Response where
  status : Nat
  reason : Bytes
  fields : List Field
  body : Bytes
  reason_line : OneLine reason
  framed : contentLengths fields = [decimalNat body.length]

/-- The text of a response: the status line, the header lines, a blank line, and
the body. -/
def Response.encode (r : Response) : Bytes :=
  ascii "HTTP/1.1 " ++ decimalNat r.status ++ [space] ++ r.reason ++ crlf ++
    r.fields.flatMap Field.encode ++ crlf ++ r.body

private theorem takeWhile_decimalNat (n : Nat) (rest : Bytes) :
    (decimalNat n ++ space :: rest).takeWhile isDigit = decimalNat n := by
  rw [List.takeWhile_append_of_pos (fun b hb => isDigit_of_mem_decimalNat hb),
    List.takeWhile_cons_of_neg (by decide), List.append_nil]

/-- The text of a response determines its status. -/
theorem Response.status_eq_of_encode {r r' : Response} (h : r.encode = r'.encode) :
    r.status = r'.status := by
  unfold Response.encode at h
  simp only [List.append_assoc, List.cons_append] at h
  have hdigits := congrArg (List.takeWhile isDigit) (List.append_cancel_left h)
  simp only [takeWhile_decimalNat] at hdigits
  rw [← digitsValue_decimalNat r.status, hdigits, digitsValue_decimalNat]

end Http

end EasyWebServer
