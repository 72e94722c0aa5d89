import EasyWebServer.Lib.Message
import EasyWebServer.Post.Request

/-!
# The response builder of the POST server

`add_response` and the functions on top of it, and `process_write`, in the order
of `http_conn.cpp`.  `addResponse` takes the text that `vsnprintf` would print
without a bound.

Every builder appends to `m_write_buf`.  `HttpConn.put` is an append that
fits: `addResponse_put` says when `addResponse` is one, and `put_put` joins two
of them, so that the text of a whole response is computed before the buffer is
looked at.

`responseBytes` is what the `writev` of the caller sends: the bytes of
`m_iv[0..m_iv_count)`.  `ResponseOk` says that they are a framed HTTP response
with the status of the outcome, and `responseOk_iff` lists the outcomes for
which they are.
-/

namespace EasyWebServer.Post

open CString CInt HttpConn

/-! ## The texts -/

/-- `ok_200_title`. -/
def ok200Title : Bytes := ascii "OK"
/-- `error_403_title`. -/
def error403Title : Bytes := ascii "Forbidden"
/-- `error_403_form`. -/
def error403Form : Bytes :=
  ascii "You do not have permission to get file form this server.\n"
/-- `error_404_title`. -/
def error404Title : Bytes := ascii "Not Found"
/-- `error_404_form`. -/
def error404Form : Bytes :=
  ascii "The requested file was not found on this server.\n"
/-- `error_500_title`. -/
def error500Title : Bytes := ascii "Internal Error"
/-- `error_500_form`. -/
def error500Form : Bytes :=
  ascii "There was an unusual problem serving the request file.\n"
/-- `ok_string`, the page for an empty file. -/
def okString : Bytes := ascii "<html><body></body></html>"

/-! ## add_response -/

/-- `vsnprintf(buf + i, size, ...)` of a text: at most `size - 1` bytes and a
terminator. -/
def vsnprintf {cap : Nat} (buf : CharBuf cap) (i size : Nat) (text : Bytes) :
    CharBuf cap :=
  if size = 0 then buf else buf.write i (text.take (size - 1) ++ [NUL])

/-- `add_response`. -/
def addResponse (c : HttpConn) (text : Bytes) : Bool × HttpConn :=
  if WRITE_BUFFER_SIZE ≤ c.writeIdx then (false, c)
  else
    let size := WRITE_BUFFER_SIZE - 1 - c.writeIdx
    let c' := { c with writeBuf := vsnprintf c.writeBuf c.writeIdx size text }
    if size ≤ text.length then (false, c')
    else (true, { c' with writeIdx := c.writeIdx + text.length })

/-- `"%s %d %s\r\n"`. -/
def statusLine (status : Nat) (title : Bytes) : Bytes :=
  ascii "HTTP/1.1" ++ [Http.space] ++ decimal status ++ [Http.space] ++ title ++ Http.crlf

/-- `add_status_line`. -/
def addStatusLine (c : HttpConn) (status : Nat) (title : Bytes) : Bool × HttpConn :=
  addResponse c (statusLine status title)

/-- `"Content-Length:%d\r\n"`. -/
def contentLengthLine (len : Int) : Bytes :=
  ascii "Content-Length:" ++ decimal len ++ Http.crlf

/-- `add_content_length`. -/
def addContentLength (c : HttpConn) (len : Int) : Bool × HttpConn :=
  addResponse c (contentLengthLine len)

/-- The argument of `add_linger`. -/
def lingerValue (linger : Bool) : Bytes :=
  if linger then ascii "keep-alive" else ascii "close"

/-- `"Connection:%s\r\n"`. -/
def lingerLine (linger : Bool) : Bytes :=
  ascii "Connection:" ++ lingerValue linger ++ Http.crlf

/-- `add_linger`. -/
def addLinger (c : HttpConn) : Bool × HttpConn :=
  addResponse c (lingerLine c.linger)

/-- `add_blank_line`. -/
def addBlankLine (c : HttpConn) : Bool × HttpConn := addResponse c Http.crlf

/-- `add_content`. -/
def addContent (c : HttpConn) (content : Bytes) : Bool × HttpConn :=
  addResponse c content

/-- `add_headers`.  The function has no `return` statement, so running off its end is undefined
in C++.  The model assumes what compilers without optimisation do, that it returns; no caller uses
its result. -/
def addHeaders (c : HttpConn) (len : Int) : HttpConn :=
  let c := (addContentLength c len).2
  let c := (addLinger c).2
  (addBlankLine c).2

/-! ## process_write -/

/-- The end of `process_write`, behind the `switch`. -/
def finishWrite (c : HttpConn) : Bool × HttpConn :=
  (true, { c with
    iv0 := ⟨.writeBuf 0, c.writeIdx⟩
    ivCount := 1
    bytesToSend := c.writeIdx })

/-- A case of the `switch` for an error: a status line, the headers, and a form
as the body. -/
def errorResponse (c : HttpConn) (status : Nat) (title form : Bytes) :
    Bool × HttpConn :=
  let c := (addStatusLine c status title).2
  let c := addHeaders c (strlen form)
  match addContent c form with
  | (false, c) => (false, c)
  | (true, c) => finishWrite c

/-- The case `FILE_REQUEST` behind the status line.  The page of an empty file is
built, and then the case falls through to `default`. -/
def fileBody (c : HttpConn) : Bool × HttpConn :=
  if c.fileStat.size ≠ 0 then
    let c := addHeaders c (wrap32 c.fileStat.size)
    (true, { c with
      iv0 := ⟨.writeBuf 0, c.writeIdx⟩
      iv1 := ⟨.file 0, c.fileStat.size⟩
      ivCount := 2
      bytesToSend := wrap32 (c.writeIdx + c.fileStat.size) })
  else
    let c := addHeaders c (strlen okString)
    (false, (addContent c okString).2)

/-- The case `FILE_REQUEST`. -/
def fileResponse (c : HttpConn) : Bool × HttpConn :=
  fileBody (addStatusLine c 200 ok200Title).2

/-- `process_write`. -/
def processWrite (c : HttpConn) : HttpCode → Bool × HttpConn
  | .internalError => errorResponse c 500 error500Title error500Form
  | .badRequest => errorResponse c 404 error404Title error404Form
  | .forbiddenRequest => errorResponse c 403 error403Title error403Form
  | .fileRequest => fileResponse c
  | _ => (false, c)

/-! ## What process_write changes -/

/-- The write buffer and the members that describe it may change. -/
inductive ResponseWritten (c : HttpConn) : HttpConn → Prop where
  | mk (writeBuf : CharBuf WRITE_BUFFER_SIZE) (writeIdx : Nat) (iv0 iv1 : Iovec)
      (ivCount : Nat) (bytesToSend : Int) :
      ResponseWritten c { c with
        writeBuf := writeBuf
        writeIdx := writeIdx
        iv0 := iv0
        iv1 := iv1
        ivCount := ivCount
        bytesToSend := bytesToSend }

theorem ResponseWritten.refl (c : HttpConn) : ResponseWritten c c :=
  .mk c.writeBuf c.writeIdx c.iv0 c.iv1 c.ivCount c.bytesToSend

theorem ResponseWritten.trans {a b c : HttpConn} (h : ResponseWritten a b)
    (h' : ResponseWritten b c) : ResponseWritten a c := by
  cases h
  cases h'
  exact .mk _ _ _ _ _ _

theorem addResponse_written (c : HttpConn) (text : Bytes) :
    ResponseWritten c (addResponse c text).2 := by
  unfold addResponse
  simp only
  split_ifs
  · exact .refl c
  · exact .mk _ c.writeIdx c.iv0 c.iv1 c.ivCount c.bytesToSend
  · exact .mk _ _ c.iv0 c.iv1 c.ivCount c.bytesToSend

theorem addHeaders_written (c : HttpConn) (len : Int) : ResponseWritten c (addHeaders c len) :=
  ((addResponse_written _ _).trans (addResponse_written _ _)).trans (addResponse_written _ _)

theorem finishWrite_written (c : HttpConn) : ResponseWritten c (finishWrite c).2 :=
  .mk c.writeBuf c.writeIdx _ c.iv1 _ _

theorem errorResponse_written (c : HttpConn) (status : Nat) (title form : Bytes) :
    ResponseWritten c (errorResponse c status title form).2 := by
  have hline : ResponseWritten c (addStatusLine c status title).2 := addResponse_written c _
  have hheaders := hline.trans (addHeaders_written _ (strlen form))
  have hcontent : ResponseWritten c (addContent _ form).2 :=
    hheaders.trans (addResponse_written _ form)
  unfold errorResponse
  simp only
  split
  · rename_i d hadd
    rw [hadd] at hcontent
    exact hcontent
  · rename_i d hadd
    rw [hadd] at hcontent
    exact hcontent.trans (finishWrite_written d)

theorem fileBody_written (c : HttpConn) : ResponseWritten c (fileBody c).2 := by
  unfold fileBody
  split_ifs
  · have hheaders := addHeaders_written c (wrap32 c.fileStat.size)
    exact hheaders.trans (.mk _ _ _ _ _ _)
  · have hheaders := addHeaders_written c (strlen okString)
    exact hheaders.trans (addResponse_written _ okString)

/-- Nothing that the parser reads, and not the mapped file. -/
theorem processWrite_written (c : HttpConn) (code : HttpCode) :
    ResponseWritten c (processWrite c code).2 := by
  unfold processWrite
  split
  · exact errorResponse_written c _ _ _
  · exact errorResponse_written c _ _ _
  · exact errorResponse_written c _ _ _
  · exact (addResponse_written c _).trans (fileBody_written _)
  · exact .refl c

/-! ## What the vectors describe -/

/-- The bytes of one vector, when `file` is the mapped file. -/
def iovBytes (c : HttpConn) (file : Bytes) (v : Iovec) : Bytes :=
  match v.base with
  | .writeBuf offset => c.writeBuf.slice offset.toNat v.len
  | .file offset => (file.drop offset.toNat).take v.len

/-- `m_iv[0..m_iv_count)`. -/
def iovecs (c : HttpConn) : List Iovec := [c.iv0, c.iv1].take c.ivCount

/-- The bytes that `m_iv` describes. -/
def responseBytes (c : HttpConn) (file : Bytes) : Bytes :=
  (iovecs c).flatMap (iovBytes c file)

/-- The status of an outcome of `process_read`. -/
def statusOf : HttpCode → Option Nat
  | .fileRequest => some 200
  | .badRequest => some 400
  | .forbiddenRequest => some 403
  | .noResource => some 404
  | .internalError => some 500
  | _ => none

/-- `process_write` succeeds, and what it prepares is one framed response with
the status of the outcome, with `bytes_to_send` at its length. -/
def ResponseOk (c : HttpConn) (code : HttpCode) (file : Bytes) : Prop :=
  (processWrite c code).1 = true ∧
  (∃ m : Http.Response, some m.status = statusOf code ∧
    responseBytes (processWrite c code).2 file = m.encode) ∧
  (processWrite c code).2.bytesToSend =
    (responseBytes (processWrite c code).2 file).length

/-- The largest file for which the length of the response is an `int`. -/
def maxFileSize (linger : Bool) : Nat :=
  if linger then 2147483578 else 2147483583

/-- The outcomes and file sizes that `process_write` answers as it should. -/
def Answered (code : HttpCode) (linger : Bool) (size : Nat) : Prop :=
  code = .forbiddenRequest ∨ code = .internalError ∨
    code = .fileRequest ∧ 1 ≤ size ∧ size ≤ maxFileSize linger

/-! ## Appending to the write buffer -/

/-- An append that fits: the text, and a terminator behind it. -/
def HttpConn.put (c : HttpConn) (text : Bytes) : HttpConn :=
  { c with
    writeBuf := c.writeBuf.write c.writeIdx (text ++ [NUL])
    writeIdx := c.writeIdx + text.length }

@[simp] theorem put_writeIdx (c : HttpConn) (text : Bytes) :
    (c.put text).writeIdx = c.writeIdx + text.length := rfl

@[simp] theorem put_linger (c : HttpConn) (text : Bytes) :
    (c.put text).linger = c.linger := rfl

@[simp] theorem put_bytesHaveSend (c : HttpConn) (text : Bytes) :
    (c.put text).bytesHaveSend = c.bytesHaveSend := rfl

/-- The second append overwrites the terminator of the first. -/
theorem put_put (c : HttpConn) (a b : Bytes) :
    (c.put a).put b = c.put (a ++ b) := by
  obtain ⟨y, bs, hb⟩ : ∃ y bs, b ++ [NUL] = y :: bs := by
    cases b with
    | nil => exact ⟨NUL, [], rfl⟩
    | cons y bs => exact ⟨y, bs ++ [NUL], rfl⟩
  simp only [HttpConn.put, List.length_append, Nat.add_assoc]
  rw [CharBuf.write_append _ _ a [NUL], List.append_assoc, CharBuf.write_append _ _ a, hb,
    CharBuf.write_overwrite]

/-- An append that leaves room for the terminator. -/
theorem addResponse_put {c : HttpConn} {text : Bytes}
    (h : c.writeIdx + text.length < WRITE_BUFFER_SIZE - 1) :
    addResponse c text = (true, c.put text) := by
  have hsize : WRITE_BUFFER_SIZE - 1 - c.writeIdx ≠ 0 := by omega
  have htake : text.take (WRITE_BUFFER_SIZE - 1 - c.writeIdx - 1) = text :=
    List.take_of_length_le (by omega)
  rw [addResponse, if_neg (by omega), if_neg (by omega)]
  simp only [vsnprintf, if_neg hsize, htake, HttpConn.put]

/-- The bytes of an append. -/
theorem slice_put_writeIdx {c : HttpConn} (text : Bytes)
    (h : c.writeIdx + text.length < WRITE_BUFFER_SIZE) :
    (c.put text).writeBuf.slice c.writeIdx text.length = text := by
  have hall := CharBuf.slice_write c.writeBuf (i := c.writeIdx) (text ++ [NUL])
    (by rw [List.length_append, List.length_singleton]; omega)
  rw [List.length_append, CharBuf.slice_append] at hall
  have hlen := CharBuf.slice_length (c.writeBuf.write c.writeIdx (text ++ [NUL]))
    (i := c.writeIdx) (n := text.length) (by omega)
  exact (List.append_inj hall hlen).1

/-- The bytes of an append to an empty buffer. -/
theorem slice_put {c : HttpConn} (text : Bytes) (h0 : c.writeIdx = 0)
    (h : text.length < WRITE_BUFFER_SIZE) :
    (c.put text).writeBuf.slice 0 text.length = text := by
  have hslice := slice_put_writeIdx (c := c) text (by omega)
  rwa [h0] at hslice

/-! ## The header of a response -/

/-- The text of `add_headers`. -/
def headersText (len : Int) (linger : Bool) : Bytes :=
  contentLengthLine len ++ lingerLine linger ++ Http.crlf

theorem lingerLine_length (linger : Bool) :
    (lingerLine linger).length = if linger then 23 else 18 := by
  cases linger <;> decide

theorem contentLengthLine_length (len : Int) :
    (contentLengthLine len).length = 17 + (decimal len).length := by
  have h1 : (ascii "Content-Length:").length = 15 := by decide
  have h2 : Http.crlf.length = 2 := by decide
  rw [contentLengthLine, List.length_append, List.length_append, h1, h2]
  omega

theorem headersText_length (len : Int) (linger : Bool) :
    (headersText len linger).length =
      19 + (decimal len).length + (if linger then 23 else 18) := by
  have h2 : Http.crlf.length = 2 := by decide
  rw [headersText, List.length_append, List.length_append, contentLengthLine_length,
    lingerLine_length, h2]
  omega

theorem statusLine_length (status : Nat) (title : Bytes) :
    (statusLine status title).length = 12 + (decimalNat status).length + title.length := by
  have h1 : (ascii "HTTP/1.1").length = 8 := by decide
  have h2 : Http.crlf.length = 2 := by decide
  simp only [statusLine, List.length_append, List.length_singleton, h1, h2, decimal_natCast]
  omega

theorem addHeaders_put {c : HttpConn} (len : Int)
    (h : c.writeIdx + (headersText len c.linger).length < WRITE_BUFFER_SIZE - 1) :
    addHeaders c len = c.put (headersText len c.linger) := by
  simp only [headersText, List.length_append] at h
  have hlength : addContentLength c len = (true, c.put (contentLengthLine len)) :=
    addResponse_put (by omega)
  have hlinger : addLinger (c.put (contentLengthLine len)) =
      (true, (c.put (contentLengthLine len)).put (lingerLine c.linger)) :=
    addResponse_put (by simp only [put_writeIdx, put_linger]; omega)
  have hblank : addBlankLine (c.put (contentLengthLine len ++ lingerLine c.linger)) =
      (true, (c.put (contentLengthLine len ++ lingerLine c.linger)).put Http.crlf) :=
    addResponse_put (by simp only [put_writeIdx, List.length_append]; omega)
  simp only [addHeaders, hlength, hlinger, put_put, hblank, headersText]

/-- The text of an error response. -/
def errorText (status : Nat) (title form : Bytes) (linger : Bool) : Bytes :=
  statusLine status title ++ headersText form.length linger ++ form

theorem errorResponse_eq {c : HttpConn} {status : Nat} {title form : Bytes}
    (h0 : c.writeIdx = 0) (hstatus : status < 1000) (htitle : title.length ≤ 100)
    (hform : form.length < 100) (hnul : strlen form = form.length) :
    errorResponse c status title form =
      finishWrite (c.put (errorText status title form c.linger)) ∧
    (errorText status title form c.linger).length < WRITE_BUFFER_SIZE := by
  have hs := decimalNat_length_le (k := 3) (by omega) hstatus
  have hl := decimalNat_length_le (k := 2) (by omega) hform
  have h1 := statusLine_length status title
  have h2 := headersText_length form.length c.linger
  rw [decimal_natCast] at h2
  have h3 : (if c.linger then 23 else 18) ≤ 23 := by split <;> omega
  have hbuf : WRITE_BUFFER_SIZE = 1024 := rfl
  constructor
  · have hline : addStatusLine c status title = (true, c.put (statusLine status title)) :=
      addResponse_put (by omega)
    have hhead := addHeaders_put (c := c.put (statusLine status title)) form.length
      (by simp only [put_writeIdx, put_linger]; omega)
    rw [put_put, put_linger] at hhead
    have hbody : addContent (c.put (statusLine status title ++ headersText form.length c.linger))
        form = (true, c.put (errorText status title form c.linger)) := by
      rw [addContent, addResponse_put
        (by simp only [put_writeIdx, List.length_append]; omega), put_put]
      rfl
    simp only [errorResponse, hline, hnul, hhead, hbody]
  · rw [errorText, List.length_append, List.length_append]
    omega

/-- The header of a file response. -/
def fileHeader (size : Nat) (linger : Bool) : Bytes :=
  statusLine 200 ok200Title ++ headersText (wrap32 size) linger

theorem fileHeader_length (size : Nat) (linger : Bool) :
    (fileHeader size linger).length =
      36 + (decimal (wrap32 size)).length + (if linger then 23 else 18) := by
  have h := statusLine_length 200 ok200Title
  have hd : (decimalNat 200).length = 3 := by
    have h1 := decimalNat_length_le (n := 200) (k := 3) (by omega) (by omega)
    have h2 := lt_decimalNat_length (n := 200) (k := 2) (by omega)
    omega
  have ht : ok200Title.length = 2 := by decide
  rw [fileHeader, List.length_append, h, headersText_length, hd, ht]
  omega

theorem fileBody_eq {c : HttpConn} {text : Bytes} (hsize : c.fileStat.size ≠ 0)
    (hhead : addHeaders c (wrap32 c.fileStat.size) = c.put text) :
    fileBody c =
      (true, { c.put text with
        iv0 := ⟨.writeBuf 0, c.writeIdx + text.length⟩
        iv1 := ⟨.file 0, c.fileStat.size⟩
        ivCount := 2
        bytesToSend := wrap32 ((c.writeIdx + text.length : Nat) + c.fileStat.size) }) := by
  rw [fileBody, if_pos hsize, hhead]
  rfl

theorem fileResponse_eq {c : HttpConn} (h0 : c.writeIdx = 0) (hsize : c.fileStat.size ≠ 0) :
    fileResponse c =
      (true, { c.put (fileHeader c.fileStat.size c.linger) with
        iv0 := ⟨.writeBuf 0, (fileHeader c.fileStat.size c.linger).length⟩
        iv1 := ⟨.file 0, c.fileStat.size⟩
        ivCount := 2
        bytesToSend := wrap32
          ((fileHeader c.fileStat.size c.linger).length + c.fileStat.size) }) := by
  have hlen := fileHeader_length c.fileStat.size c.linger
  have hdec := decimal_wrap32_length_le c.fileStat.size
  have hl : (if c.linger then 23 else 18) ≤ 23 := by split <;> omega
  have hbuf : WRITE_BUFFER_SIZE = 1024 := rfl
  have hfit := hlen
  rw [fileHeader, List.length_append] at hfit
  have hline : addStatusLine c 200 ok200Title = (true, c.put (statusLine 200 ok200Title)) :=
    addResponse_put (by omega)
  have hhead := addHeaders_put (c := c.put (statusLine 200 ok200Title))
    (wrap32 c.fileStat.size) (by simp only [put_writeIdx, put_linger]; omega)
  have hbody := fileBody_eq (c := c.put (statusLine 200 ok200Title)) hsize hhead
  rw [put_put, put_linger, ← fileHeader] at hbody
  rw [fileResponse, hline, hbody, put_writeIdx, h0, Nat.zero_add, ← List.length_append,
    ← fileHeader]
  rfl

/-! ## The messages -/

/-- The `Content-Length` field of a body of `n` bytes. -/
def contentLengthField (n : Nat) : Http.Field where
  name := ascii "Content-Length"
  value := decimalNat n
  name_ne := by decide
  name_line := by decide
  name_colon := by decide
  value_line := Http.oneLine_decimalNat n

/-- The `Connection` field. -/
def connectionField (linger : Bool) : Http.Field where
  name := ascii "Connection"
  value := lingerValue linger
  name_ne := by decide
  name_line := by decide
  name_colon := by decide
  value_line := by cases linger <;> decide

/-- The message that a status, a title and a body stand for. -/
def message (status : Nat) (title : Bytes) (linger : Bool) (body : Bytes)
    (htitle : Http.OneLine title) : Http.Response where
  status := status
  reason := title
  fields := [contentLengthField body.length, connectionField linger]
  body := body
  reason_line := htitle
  framed := by
    have h1 : strcasecmp (contentLengthField body.length).name (ascii "Content-Length") = true := by
      simp only [contentLengthField]
      decide
    have h2 : strcasecmp (connectionField linger).name (ascii "Content-Length") = false := by
      simp only [connectionField]
      decide
    simp only [Http.contentLengths, List.filter_cons, List.filter_nil, h1, h2]
    rfl

/-- The text of a message is what the builders append. -/
theorem encode_message (status : Nat) (title : Bytes) (linger : Bool) (body : Bytes)
    (htitle : Http.OneLine title) :
    (message status title linger body htitle).encode =
      statusLine status title ++ headersText body.length linger ++ body := by
  have h1 : ascii "HTTP/1.1 " = ascii "HTTP/1.1" ++ [Http.space] := by decide
  have h2 : ascii "Content-Length:" = ascii "Content-Length" ++ [Http.colon] := by decide
  have h3 : ascii "Connection:" = ascii "Connection" ++ [Http.colon] := by decide
  simp only [Http.Response.encode, message, Http.Field.encode, contentLengthField,
    connectionField, statusLine, headersText, contentLengthLine, lingerLine, decimal_natCast,
    h1, h2, h3, List.flatMap_cons, List.flatMap_nil, List.append_assoc, List.nil_append]

/-! ## The bytes of a response -/

/-- The bytes of a response that is in the buffer only. -/
theorem responseBytes_finishWrite {c : HttpConn} {text : Bytes} (file : Bytes)
    (h0 : c.writeIdx = 0) (h : text.length < WRITE_BUFFER_SIZE) :
    responseBytes (finishWrite (c.put text)).2 file = text := by
  have hslice := slice_put text h0 h
  simp only [HttpConn.put, h0] at hslice
  simp only [responseBytes, iovecs, finishWrite, HttpConn.put, h0, Nat.zero_add,
    List.take_succ_cons, List.take_zero, List.flatMap_cons, List.flatMap_nil, iovBytes,
    Int.toNat_zero, hslice, List.append_nil]

/-- The bytes of a response with a file. -/
theorem responseBytes_file {c : HttpConn} {file : Bytes} (h0 : c.writeIdx = 0)
    (hfile : file.length = c.fileStat.size) (hsize : c.fileStat.size ≠ 0) :
    responseBytes (fileResponse c).2 file =
      fileHeader c.fileStat.size c.linger ++ file := by
  have hlen := fileHeader_length c.fileStat.size c.linger
  have hdec := decimal_wrap32_length_le c.fileStat.size
  have hl : (if c.linger then 23 else 18) ≤ 23 := by split <;> omega
  have hbuf : WRITE_BUFFER_SIZE = 1024 := rfl
  have hslice := slice_put (fileHeader c.fileStat.size c.linger) h0 (by omega)
  simp only [HttpConn.put, h0] at hslice
  rw [fileResponse_eq h0 hsize]
  simp only [responseBytes, iovecs, HttpConn.put, h0, List.take_succ_cons, List.take_zero,
    List.flatMap_cons, List.flatMap_nil, iovBytes, Int.toNat_zero, hslice, List.drop_zero,
    List.append_nil, List.take_of_length_le (Nat.le_of_eq hfile)]

/-! ## Which outcomes are answered -/

/-- An error response is the message of its status, title and form. -/
theorem errorResponse_ok {c : HttpConn} (status : Nat) (title form file : Bytes)
    (h0 : c.writeIdx = 0) (hstatus : status < 1000) (htitle : title.length ≤ 100)
    (hform : form.length < 100) (hnul : strlen form = form.length)
    (hline : Http.OneLine title) :
    (errorResponse c status title form).1 = true ∧
    responseBytes (errorResponse c status title form).2 file =
      (message status title c.linger form hline).encode ∧
    (errorResponse c status title form).2.bytesToSend =
      (responseBytes (errorResponse c status title form).2 file).length := by
  obtain ⟨heq, hlen⟩ := errorResponse_eq h0 hstatus htitle hform hnul
  have hbytes := responseBytes_finishWrite file h0 hlen
  rw [heq]
  refine ⟨rfl, ?_, ?_⟩
  · rw [hbytes, encode_message, errorText]
  · rw [hbytes]
    simp only [finishWrite, put_writeIdx, h0, Nat.zero_add]


/-- The length of a file response does not fit an `int` exactly when the file is
larger than `maxFileSize`. -/
theorem fileHeader_add_le_iff (size : Nat) (linger : Bool) :
    (((fileHeader size linger).length + size : Nat) : Int) ≤ INT_MAX ↔
      size ≤ maxFileSize linger := by
  have hlen := fileHeader_length size linger
  have hmax : INT_MAX = 2147483647 := rfl
  by_cases hint : (size : Int) ≤ INT_MAX
  · rw [wrap32_of_range (by omega) hint, decimal_natCast] at hlen
    have hle := decimalNat_length_le (n := size) (k := 10) (by omega) (by omega)
    by_cases hbig : 10 ^ 9 ≤ size
    · have hlt := lt_decimalNat_length hbig
      cases linger <;> simp only [maxFileSize, Bool.false_eq_true, if_true, if_false] at hlen ⊢ <;>
        omega
    · cases linger <;> simp only [maxFileSize, Bool.false_eq_true, if_true, if_false] at hlen ⊢ <;>
        omega
  · cases linger <;> simp only [maxFileSize, Bool.false_eq_true, if_true, if_false] <;> omega

/-- An empty file is not answered. -/
theorem fileResponse_empty {c : HttpConn} (hsize : c.fileStat.size = 0) :
    (fileResponse c).1 = false := by
  have hstat : (addStatusLine c 200 ok200Title).2.fileStat = c.fileStat := by
    rw [addStatusLine, addResponse]
    split_ifs
    · rfl
    · simp only
      split_ifs <;> rfl
  rw [fileResponse, fileBody, hstat, if_neg (fun h => h hsize)]

/-- A file response is right exactly when the file is neither empty nor too
large. -/
theorem fileResponse_ok_iff {c : HttpConn} {file : Bytes} (h0 : c.writeIdx = 0)
    (hfile : file.length = c.fileStat.size) :
    ResponseOk c .fileRequest file ↔
      1 ≤ c.fileStat.size ∧ c.fileStat.size ≤ maxFileSize c.linger := by
  by_cases hsize : c.fileStat.size = 0
  · have hfalse : (processWrite c .fileRequest).1 = false := fileResponse_empty hsize
    refine iff_of_false (fun h => ?_) (by omega)
    rw [h.1] at hfalse
    cases hfalse
  · have hbytes := responseBytes_file h0 hfile hsize
    have heq := fileResponse_eq h0 hsize
    have hfit := fileHeader_add_le_iff c.fileStat.size c.linger
    have hsend : (processWrite c .fileRequest).2.bytesToSend =
        wrap32 ((fileHeader c.fileStat.size c.linger).length + c.fileStat.size) := by
      rw [processWrite, heq]
    have htotal : ((responseBytes (processWrite c .fileRequest).2 file).length : Int) =
        (fileHeader c.fileStat.size c.linger).length + c.fileStat.size := by
      rw [processWrite, hbytes, List.length_append, hfile]
      omega
    constructor
    · rintro ⟨-, -, hlen⟩
      refine ⟨by omega, hfit.mp ?_⟩
      rw [hsend, htotal] at hlen
      have hle := wrap32_le ((fileHeader c.fileStat.size c.linger).length + c.fileStat.size)
      omega
    · rintro ⟨-, hle⟩
      have hint := hfit.mpr hle
      refine ⟨by rw [processWrite, heq], ?_, ?_⟩
      · refine ⟨message 200 ok200Title c.linger file (by decide), rfl, ?_⟩
        rw [processWrite, hbytes, encode_message, fileHeader, hfile,
          wrap32_of_range (by omega) (by omega)]
      · rw [hsend, htotal, wrap32_of_range (by omega) (by omega)]

/-- `BAD_REQUEST` is answered with the status 404. -/
theorem badRequest_not_ok {c : HttpConn} (file : Bytes) (h0 : c.writeIdx = 0) :
    ¬ ResponseOk c .badRequest file := by
  rintro ⟨-, ⟨m, hstatus, hm⟩, -⟩
  obtain ⟨-, hbytes, -⟩ := errorResponse_ok 404 error404Title error404Form file h0
     (by omega) (by decide) (by decide) (by decide) (by decide)
  rw [processWrite, hbytes] at hm
  have h404 : m.status = 404 := (Http.Response.status_eq_of_encode hm).symm
  have h400 : m.status = 400 := Option.some.inj hstatus
  omega

/-- `process_write` prepares one framed response with the right status exactly
for `FORBIDDEN_REQUEST`, `INTERNAL_ERROR`, and a file that is neither empty nor
so large that the length of the response leaves the range of `int`. -/
theorem responseOk_iff (c : HttpConn) (code : HttpCode) (file : Bytes)
    (h0 : c.writeIdx = 0) (hcode : FinalCode code)
    (hfile : file.length = c.fileStat.size) :
    ResponseOk c code file ↔ Answered code c.linger c.fileStat.size := by
  rcases hcode with rfl | rfl | rfl | rfl | rfl
  · exact iff_of_false (badRequest_not_ok file h0) (by simp [Answered])
  · refine iff_of_false (fun h => ?_) (by simp [Answered])
    cases h.1
  · refine iff_of_true ?_ (Or.inl rfl)
    obtain ⟨h1, h2, h3⟩ := errorResponse_ok 403 error403Title error403Form file h0
       (by omega) (by decide) (by decide) (by decide) (by decide)
    exact ⟨h1, ⟨_, rfl, h2⟩, h3⟩
  · rw [fileResponse_ok_iff h0 hfile]
    simp [Answered]
  · refine iff_of_true ?_ (Or.inr (Or.inl rfl))
    obtain ⟨h1, h2, h3⟩ := errorResponse_ok 500 error500Title error500Form file h0
       (by omega) (by decide) (by decide) (by decide) (by decide)
    exact ⟨h1, ⟨_, rfl, h2⟩, h3⟩

/-- The response to a request for a file without read permission. -/
theorem responseOk_forbidden : ResponseOk HttpConn.blank .forbiddenRequest [] :=
  (responseOk_iff HttpConn.blank .forbiddenRequest [] rfl (by decide) rfl).mpr
    (Or.inl rfl)

/-- A request for an empty file gets no response: `process_write` falls through
to `default` and returns false. -/
theorem not_responseOk_emptyFile :
    HttpConn.blank.writeIdx = 0 ∧ FinalCode .fileRequest ∧
      ([] : Bytes).length = HttpConn.blank.fileStat.size ∧
      ¬ ResponseOk HttpConn.blank .fileRequest [] := by
  refine ⟨rfl, by decide, rfl, fun h => ?_⟩
  have hpos := (fileResponse_ok_iff rfl rfl).mp h
  exact absurd hpos.1 (by decide)

end EasyWebServer.Post
