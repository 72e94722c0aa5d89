import EasyWebServer.Get.Request
import EasyWebServer.Post.Sender

/-!
# The response of the GET server

`addResponse` and `process_write` of `GET-WebServer/src/http_conn.cpp`.  The functions are
those of the POST server with other texts, a case for `NO_RESOURCE`, and no
`bytes_to_send`.

`prepared_of_processWrite` says what a `process_write` that succeeds leaves for `write`: a
header in the write buffer, and a file behind it or none.
-/

namespace EasyWebServer.Get

open CString CInt HttpConn
open Post (vsnprintf statusLine lingerValue)

/-! ## The texts -/

/-- `ok_200_title`. -/
def ok200Title : Bytes := ascii "OK"
/-- `error_400_title`. -/
def error400Title : Bytes := ascii "Bad Request"
/-- `error_400_form`. -/
def error400Form : Bytes :=
  ascii "Your request has bad syntax or is inherently impossible to satisfy.\n"
/-- `error_403_title`. -/
def error403Title : Bytes := ascii "Forbidden"
/-- `error_403_form`. -/
def error403Form : Bytes := ascii "You do not have permission to get file from this server.\n"
/-- `error_404_title`. -/
def error404Title : Bytes := ascii "Not Found"
/-- `error_404_form`. -/
def error404Form : Bytes := ascii "The requested file was not found on this server.\n"
/-- `error_500_title`. -/
def error500Title : Bytes := ascii "Internal Error"
/-- `error_500_form`. -/
def error500Form : Bytes := ascii "There was an unusual problem serving the requested file.\n"
/-- `ok_string`, the page for an empty file. -/
def okString : Bytes := ascii "<html><body></body></html>"

/-! ## add_response -/

/-- `add_response`. -/
def addResponse (c : HttpConn) (text : Bytes) : Bool × HttpConn :=
  if WRITE_BUFFER_SIZE ≤ c.writeIdx then (false, c)
  else
    let size := WRITE_BUFFER_SIZE - 1 - c.writeIdx
    let c' := { c with writeBuf := vsnprintf c.writeBuf c.writeIdx size text }
    if size ≤ text.length then (false, c')
    else (true, { c' with writeIdx := c.writeIdx + text.length })

/-- `add_status_line`. -/
def addStatusLine (c : HttpConn) (status : Nat) (title : Bytes) : Bool × HttpConn :=
  addResponse c (statusLine status title)

/-- `add_content_length`. -/
def addContentLength (c : HttpConn) (len : Int) : Bool × HttpConn :=
  addResponse c (ascii "Content-Length: " ++ decimal len ++ Http.crlf)

/-- `add_linger`. -/
def addLinger (c : HttpConn) : Bool × HttpConn :=
  addResponse c (ascii "Connection: " ++ lingerValue c.linger ++ Http.crlf)

/-- `add_blank_line`. -/
def addBlankLine (c : HttpConn) : Bool × HttpConn := addResponse c Http.crlf

/-- `add_content`. -/
def addContent (c : HttpConn) (content : Bytes) : Bool × HttpConn := addResponse c content

/-- `add_headers`.  The function has no `return` statement, so running off its end is undefined
in C++.  The model assumes what compilers without optimisation do, that it returns; no caller uses
its result. -/
def addHeaders (c : HttpConn) (len : Int) : HttpConn :=
  let c := (addContentLength c len).2
  let c := (addLinger c).2
  (addBlankLine c).2

/-! ## process_write -/

/-- The end of `process_write`, behind the `switch`. -/
def finishWrite (c : HttpConn) : Bool × HttpConn :=
  (true, { c with
    iv0 := ⟨.writeBuf 0, c.writeIdx⟩
    ivCount := 1 })

/-- A case of the `switch` for an error. -/
def errorResponse (c : HttpConn) (status : Nat) (title form : Bytes) : Bool × HttpConn :=
  let c := (addStatusLine c status title).2
  let c := addHeaders c (strlen form)
  match addContent c form with
  | (false, c) => (false, c)
  | (true, c) => finishWrite c

/-- The case `FILE_REQUEST`.  Behind the page of an empty file it falls through to
`default`. -/
def fileResponse (c : HttpConn) : Bool × HttpConn :=
  let c := (addStatusLine c 200 ok200Title).2
  if c.fileStat.size ≠ 0 then
    let c := addHeaders c (wrap32 c.fileStat.size)
    (true, { c with
      iv0 := ⟨.writeBuf 0, c.writeIdx⟩
      iv1 := ⟨.file 0, c.fileStat.size⟩
      ivCount := 2 })
  else
    let c := addHeaders c (strlen okString)
    (false, (addContent c okString).2)

/-- `process_write`. -/
def processWrite (c : HttpConn) : HttpCode → Bool × HttpConn
  | .internalError => errorResponse c 500 error500Title error500Form
  | .badRequest => errorResponse c 400 error400Title error400Form
  | .noResource => errorResponse c 404 error404Title error404Form
  | .forbiddenRequest => errorResponse c 403 error403Title error403Form
  | .fileRequest => fileResponse c
  | _ => (false, c)

/-! ## What is prepared -/

/-- `process_write` has prepared a response of `h` header bytes and `f` file bytes. -/
structure Prepared (h f : Nat) (c : HttpConn) : Prop where
  header_pos : 1 ≤ h
  header_le : h ≤ WRITE_BUFFER_SIZE
  writeIdx : c.writeIdx = h
  iv0 : c.iv0 = ⟨.writeBuf 0, h⟩
  vectors : c.ivCount = 1 ∧ f = 0 ∨ c.ivCount = 2 ∧ c.iv1 = ⟨.file 0, f⟩

/-- The write buffer has something in it, and the index is inside it. -/
def HeaderStarted (c : HttpConn) : Prop := 1 ≤ c.writeIdx ∧ c.writeIdx ≤ WRITE_BUFFER_SIZE

theorem addResponse_started {c : HttpConn} (h : HeaderStarted c) (text : Bytes) :
    HeaderStarted (addResponse c text).2 := by
  obtain ⟨hpos, hle⟩ := h
  unfold addResponse
  simp only
  split_ifs
  · exact ⟨hpos, hle⟩
  · exact ⟨hpos, hle⟩
  · refine ⟨Nat.le_add_right_of_le hpos, ?_⟩
    simp only
    omega

theorem addHeaders_started {c : HttpConn} (h : HeaderStarted c) (len : Int) :
    HeaderStarted (addHeaders c len) :=
  addResponse_started (addResponse_started (addResponse_started h _) _) _

/-- A status line that fits starts the header. -/
theorem addStatusLine_started {c : HttpConn} (h0 : c.writeIdx = 0) (status : Nat)
    (title : Bytes) (hfits : (statusLine status title).length < WRITE_BUFFER_SIZE - 1) :
    HeaderStarted (addStatusLine c status title).2 := by
  have hpos : 1 ≤ (statusLine status title).length := by
    simp only [statusLine, List.length_append, List.length_singleton]
    omega
  unfold addStatusLine addResponse
  rw [if_neg (by rw [h0]; decide), h0, Nat.sub_zero, if_neg (by omega), Nat.zero_add]
  exact ⟨hpos, by simp only; omega⟩

theorem finishWrite_prepared {c : HttpConn} (h : HeaderStarted c) :
    Prepared c.writeIdx 0 (finishWrite c).2 :=
  ⟨h.1, h.2, rfl, rfl, Or.inl ⟨rfl, rfl⟩⟩

theorem errorResponse_prepared {c c' : HttpConn} {status : Nat} {title form : Bytes}
    (h0 : c.writeIdx = 0)
    (hfits : (statusLine status title).length < WRITE_BUFFER_SIZE - 1)
    (hw : errorResponse c status title form = (true, c')) :
    ∃ h, Prepared h 0 c' := by
  have hcontent := addResponse_started (addHeaders_started
    (addStatusLine_started h0 status title hfits) (strlen form)) form
  unfold errorResponse at hw
  simp only at hw
  split at hw
  · cases hw
  · rename_i d hadd
    have hd : (addContent (addHeaders (addStatusLine c status title).2 (strlen form)) form).2 = d :=
      congrArg Prod.snd hadd
    unfold addContent at hd
    rw [hd] at hcontent
    have hprepared := finishWrite_prepared hcontent
    rw [hw] at hprepared
    exact ⟨_, hprepared⟩

theorem fileResponse_prepared {c c' : HttpConn} (h0 : c.writeIdx = 0)
    (hw : fileResponse c = (true, c')) : ∃ h f, Prepared h f c' := by
  have hline := addStatusLine_started h0 200 ok200Title (by decide)
  unfold fileResponse at hw
  simp only at hw
  split_ifs at hw with hsize
  · have hheaders := addHeaders_started hline
      (wrap32 (addStatusLine c 200 ok200Title).2.fileStat.size)
    cases hw
    exact ⟨_, _, hheaders.1, hheaders.2, rfl, rfl, Or.inr ⟨rfl, rfl⟩⟩
  · cases hw

/-- A `process_write` that succeeds has prepared a response. -/
theorem prepared_of_processWrite {c c' : HttpConn} {code : HttpCode} (h0 : c.writeIdx = 0)
    (hw : processWrite c code = (true, c')) : ∃ h f, Prepared h f c' := by
  have herror : ∀ {status : Nat} {title form : Bytes},
      (statusLine status title).length < WRITE_BUFFER_SIZE - 1 →
      errorResponse c status title form = (true, c') → ∃ h f, Prepared h f c' := by
    intro status title form hfits hw
    obtain ⟨h, hprepared⟩ := errorResponse_prepared h0 hfits hw
    exact ⟨h, 0, hprepared⟩
  cases code with
  | internalError => exact herror (by decide) hw
  | badRequest => exact herror (by decide) hw
  | noResource => exact herror (by decide) hw
  | forbiddenRequest => exact herror (by decide) hw
  | fileRequest => exact fileResponse_prepared h0 hw
  | _ => cases hw

end EasyWebServer.Get
