import EasyWebServer.Common.ServedPath
import EasyWebServer.Get.Request

/-!
# The file behind a request of the GET server

The GET server appends `m_url` to the document root as it is, up to the size of
`m_real_file`.  `Placed` is what the parser keeps: `m_url` points at the `/` that the
request line was accepted with, or at a NUL stored over it, and `m_real_file` is zero.

`inside_servedFile_iff` says exactly when the path of a request stays inside the
document root.
-/

namespace EasyWebServer.Get

open CString CharBuf HttpConn LexicalPath Common

/-- The part of `m_url` that fits into `m_real_file` is a path that stays below the
document root. -/
def StaysInside (c : HttpConn) : Prop :=
  ∃ url ∈ c.url, StaysBelow slash dot docRoot
    ((cstr (c.text url)).take (FILENAME_LEN - docRoot.length - 1)).tail

instance (c : HttpConn) : Decidable (StaysInside c) := by
  unfold StaysInside
  infer_instance

/-! ## What the parser keeps -/

/-- `m_url` is where the parser has placed it, and `m_real_file` is as `init` has left
it. -/
structure HttpConn.Placed (c : HttpConn) : Prop where
  url : Common.UrlPlaced c.checkState c.readIdx c.url c.readBuf
  file : c.realFile = CharBuf.zero FILENAME_LEN

theorem placed_init (c : HttpConn) : c.init.Placed := ⟨Common.UrlPlaced.init, rfl⟩

theorem HttpConn.Placed.parseLine {c : HttpConn} (h : c.Placed) : (parseLine c).2.Placed :=
  ⟨h.url.nulStores c.lineBuf.parseLine_nulStores, h.file⟩

/-- `UrlPlaced` of the members of a connection. -/
def HttpConn.UrlPlaced (c : HttpConn) : Prop :=
  Common.UrlPlaced c.checkState c.readIdx c.url c.readBuf

/-- A path that is accepted starts with a received `/`. -/
theorem finishPath_urlPlaced {c : HttpConn} (h : ZeroBehind c.readIdx c.readBuf)
    (hcode : (finishPath c).1 ≠ .badRequest) : (finishPath c).2.UrlPlaced := by
  unfold finishPath at hcode ⊢
  split
  · rename_i hurl
    simp only [hurl] at hcode
    exact absurd rfl hcode
  · rename_i url hurl
    simp only [hurl] at hcode
    split
    · rename_i hslash
      rw [if_pos hslash] at hcode
      exact absurd rfl hcode
    · rename_i hslash
      have hslash : c.readBuf.get url = slash := not_not.mp hslash
      exact ⟨nofun, fun _ => ⟨url, hurl, h.lt_of_slash hslash, Or.inl hslash⟩⟩

theorem parseVersion_urlPlaced {c : HttpConn} {url : Nat} (h : ZeroBehind c.readIdx c.readBuf)
    (hcode : (parseVersion c url).1 ≠ .badRequest) : (parseVersion c url).2.UrlPlaced := by
  unfold parseVersion at hcode ⊢
  simp only at hcode ⊢
  split
  · rename_i hnone
    simp only [hnone] at hcode
    exact absurd rfl hcode
  · rename_i k hk
    simp only [hk] at hcode
    split
    · rename_i hversion
      rw [if_pos hversion] at hcode
      exact finishPath_urlPlaced (by exact h.nulStores (.set _ _)) hcode
    · rename_i hversion
      rw [if_neg hversion] at hcode
      exact absurd rfl hcode

theorem parseRequestLine_urlPlaced {c : HttpConn} (h : ZeroBehind c.readIdx c.readBuf) (text : Nat)
    (hcode : (parseRequestLine c text).1 ≠ .badRequest) :
    (parseRequestLine c text).2.UrlPlaced := by
  unfold parseRequestLine at hcode ⊢
  simp only at hcode ⊢
  split
  · rename_i hnone
    simp only [hnone] at hcode
    exact absurd rfl hcode
  · rename_i k hk
    simp only [hk] at hcode
    split
    · rename_i hmethod
      rw [if_pos hmethod] at hcode
      exact parseVersion_urlPlaced (by exact h.nulStores (.set _ _)) hcode
    · rename_i hmethod
      rw [if_neg hmethod] at hcode
      exact absurd rfl hcode

theorem parseHeaders_url (c : HttpConn) (text : Nat) :
    (parseHeaders c text).2.url = c.url := by
  unfold parseHeaders
  simp only
  split_ifs <;> rfl

theorem HttpConn.Placed.parseHeaders {c : HttpConn} (h : c.Placed)
    (hstate : c.checkState = .header) (text : Nat) : (parseHeaders c text).2.Placed := by
  obtain ⟨hidx, hbuf⟩ := parseHeaders_frame c text
  refine ⟨?_, hidx.2.2.2.trans h.file⟩
  rw [hidx.1, hbuf, parseHeaders_url]
  exact h.url.headers hstate (parseHeaders_checkState c text)

theorem HttpConn.Placed.parseContent {c c' : HttpConn} {text : Nat} {code : HttpCode}
    (h : c.Placed) (hp : parseContent c text = .ok (code, c')) : c'.Placed := by
  unfold Get.parseContent at hp
  simp only at hp
  split_ifs at hp <;> cases hp
  · exact ⟨h.url.nulStores (.set _ _), h.file⟩
  · exact h

theorem loopInv_placed : LoopInv parser HttpConn.Placed where
  parseLine h := h.parseLine
  setLine h := ⟨h.url, h.file⟩
  requestLine {c c' text code} h hstate hp hcode := by
    have hurl := parseRequestLine_urlPlaced (h.url.before hstate) text
    have hidx := parseRequestLine_indices c text
    rw [Except.ok.inj hp] at hurl hidx
    exact ⟨hurl hcode, hidx.2.2.2.trans h.file⟩
  headers text h hstate := h.parseHeaders hstate text
  content h _ hp := h.parseContent hp

theorem read_placed {c c' : HttpConn} {os : List RecvOutcome} {ok : Bool} (h : c.Placed)
    (hr : read c os = some (ok, c')) : c'.Placed := by
  have hrecv : ∀ (c : HttpConn) (d : Bytes), c.Placed → (c.recv d).Placed :=
    fun _ d h => ⟨h.url.recv d, h.file⟩
  unfold read at hr
  split at hr
  · cases hr
    exact h
  · exact readLoop_inv hrecv os h hr

/-- When the calls for a request reach `do_request`, `m_url` is placed. -/
theorem requestOf_placed {c d : HttpConn} {reads : List (List RecvOutcome)} (h : c.Placed)
    (hd : requestOf c reads = some d) : d.Placed ∧ d.checkState ≠ .requestLine :=
  (requested_iff.mp hd).inv loopInv_placed read_placed h

/-! ## The path that do_request builds -/

theorem docRoot_nul : NUL ∉ docRoot := by decide

theorem docRoot_length : docRoot.length = 18 := by decide

/-- What `strcpy` of the document root and `strncpy` of `m_url` leave in
`m_real_file`. -/
theorem cstr_realFile (mem : Bytes) :
    cstr (((CharBuf.zero FILENAME_LEN).write 0 (docRoot ++ [NUL])).write docRoot.length
        (strncpy mem (FILENAME_LEN - docRoot.length - 1))).bytes =
      docRoot ++ (cstr mem).take (FILENAME_LEN - docRoot.length - 1) := by
  have hnul : NUL ∉ (cstr mem).take (FILENAME_LEN - docRoot.length - 1) :=
    fun h => nul_notMem_cstr mem (List.mem_of_mem_take h)
  have hfits : docRoot.length + ((cstr mem).take (FILENAME_LEN - docRoot.length - 1)).length +
      (FILENAME_LEN - docRoot.length - 1 -
        ((cstr mem).take (FILENAME_LEN - docRoot.length - 1)).length) ≤ FILENAME_LEN := by
    rw [List.length_take, docRoot_length, FILENAME_LEN]
    omega
  exact CharBuf.cstr_write_write docRoot_nul hnul hfits

/-- The path that `do_request` passes to `stat` and `open`. -/
theorem doRequest_path {w : World} {c c' : HttpConn} {code : HttpCode} (h : c.Placed)
    (hdo : doRequest w c = .ok (code, c')) :
    ∃ url ∈ c.url, cstr c'.realFile.bytes =
      docRoot ++ (cstr (c.text url)).take (FILENAME_LEN - docRoot.length - 1) := by
  unfold doRequest at hdo
  -- the text of `doc_root` must not be evaluated below
  generalize hroot : c.realFile.write 0 (docRoot ++ [NUL]) = realFile at hdo
  simp only at hdo
  obtain ⟨url, hurl, hdo⟩ := bind_eq_ok hdo
  have hurl : c.url = some url := deref_eq_ok hurl
  refine ⟨url, hurl, ?_⟩
  rw [(openFile_code hdo).2, ← cstr_realFile, ← h.file, hroot]
  rfl

theorem doRequest_inside {w : World} {c c' : HttpConn} {code : HttpCode} (h : c.Placed)
    (hstate : c.checkState ≠ .requestLine) (hdo : doRequest w c = .ok (code, c')) :
    Inside docRoot (cstr c'.realFile.bytes) ↔ StaysInside c := by
  obtain ⟨url, hurl, hstring⟩ := doRequest_path h hdo
  have hstays : StaysInside c ↔ StaysBelow slash dot docRoot
      ((cstr (c.text url)).take (FILENAME_LEN - docRoot.length - 1)).tail := by
    constructor
    · rintro ⟨url', hurl', hcase⟩
      cases hurl.symm.trans hurl'
      exact hcase
    · exact fun hcase => ⟨url, hurl, hcase⟩
  rw [hstring, hstays]
  have hpos : FILENAME_LEN - docRoot.length - 1 = 180 + 1 := by rw [docRoot_length]; rfl
  rw [hpos]
  have htext : cstr (c.text url) = [] ∨ ∃ rest, cstr (c.text url) = slash :: rest :=
    h.url.cstr_url hstate hurl
  rcases htext with hnil | ⟨rest, hcons⟩
  · rw [hnil]
    refine iff_of_false ?_ (by decide)
    rw [List.take_nil, List.append_nil]
    exact not_below_self _
  · rw [hcons, List.take_succ_cons]
    exact below_resolve_iff slash dot docRoot _

/-! ## The requests -/

theorem servedFile_some {w : World} {c : HttpConn} {reads : List (List RecvOutcome)}
    {path : Bytes} (h : servedFile w c reads = some path) :
    ∃ c', answerOf w c reads = some (.ok (.fileRequest, c')) ∧ path = cstr c'.realFile.bytes := by
  unfold servedFile at h
  split at h
  · rename_i c' hanswer
    exact ⟨c', hanswer, (Option.some.inj h).symm⟩
  · cases h

/-- The path of a request stays inside the document root exactly when the connection
with which `do_request` is called says so. -/
theorem inside_servedFile_iff {w : World} {c : HttpConn} {reads : List (List RecvOutcome)}
    {path : Bytes} (h : servedFile w c.init reads = some path) :
    Inside docRoot path ↔ ∃ d ∈ requestOf c.init reads, StaysInside d := by
  obtain ⟨c', hanswer, rfl⟩ := servedFile_some h
  obtain ⟨d, hd, hdo⟩ := answerOf_fileRequest hanswer
  obtain ⟨hplaced, hstate⟩ := requestOf_placed (placed_init c) hd
  rw [doRequest_inside hplaced hstate hdo]
  constructor
  · exact fun hstays => ⟨d, hd, hstays⟩
  · rintro ⟨d', hd', hstays⟩
    cases hd.symm.trans hd'
    exact hstays

end EasyWebServer.Get
