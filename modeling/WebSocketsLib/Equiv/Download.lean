import WebSocketsLib.Equiv.HttpExchange
import WebSocketsLib.Server.Equiv.FileTransfer
import WebSocketsLib.Server.Equiv.MountedFiles
import WebSocketsLib.Server.Equiv.Routes

/-!
# A file that is fetched

`HttpExchange.download`: a call of `HttpClient::get` for a file of a mounted directory returns the
lines of the head, and then the bytes of the file.
-/

namespace WebSocketsLib

open Runs Fs HttpClient

/-! ### The head of an answer -/

/-- **`read_response` takes away the empty line** behind a head whose lines have no other ends. -/
theorem withoutCrLine_text {h : Head} (hstart : h.startLine ≠ []) (hstartLf : 0x0A ∉ h.startLine)
    (hentries : ∀ e ∈ h.entries, 0x0A ∉ e.1 ∧ 0x0A ∉ e.2) (body : Bytes) :
    withoutCrLine (h.text ++ body)
      = h.startLine ++ crlf ++ h.entries.flatMap headerLine ++ body := by
  have hlines : newlined ((h.startLine ++ [0x0D]) ::
      h.entries.map fun e => e.1 ++ bytes ": " ++ e.2 ++ [0x0D])
        = h.startLine ++ crlf ++ h.entries.flatMap headerLine := by
    rw [newlined_cons, newlined, List.map_map, ← List.flatMap_def]
    have hline : ((fun line : Bytes => line ++ [0x0A]) ∘
        fun e : Bytes × Bytes => e.1 ++ bytes ": " ++ e.2 ++ [0x0D]) = headerLine := by
      funext e
      simp only [Function.comp_apply, headerLine, crlf, List.append_assoc]
      rfl
    rw [hline]
    simp [crlf]
  have hcrLine : CrLine (h.text ++ body) ((h.startLine ++ [0x0D]) ::
      h.entries.map fun e => e.1 ++ bytes ": " ++ e.2 ++ [0x0D]) body := by
    constructor
    · rw [hlines, Head.text]
      simp [crlf]
    · intro line hline
      rcases List.mem_cons.mp hline with rfl | hentry
      · simp [hstartLf]
      · obtain ⟨e, he, rfl⟩ := List.mem_map.mp hentry
        obtain ⟨hname, hvalue⟩ := hentries e he
        have hsep : (0x0A : UInt8) ∉ bytes ": " := by decide
        simp [hname, hvalue, hsep]
    · intro hmem
      rcases List.mem_cons.mp hmem with heq | hentry
      · exact hstart (List.append_left_eq_self.mp heq.symm)
      · obtain ⟨e, -, heq⟩ := List.mem_map.mp hentry
        have hlen := congrArg List.length heq
        have hsep : (bytes ": ").length = 2 := by decide
        simp only [List.length_append, hsep, List.length_singleton] at hlen
        omega
  rw [hcrLine.withoutCrLine_eq, hlines]

/-! ### Writing a file -/

/-- The operating system delivers the whole file, by either way. -/
def Delivers (file : File) (os : Outcomes) : Prop :=
  ∃ calls sizes, os = file.outcomes calls sizes ∧ (∀ call ∈ calls, call.Proceeds) ∧
    file.content.length ≤ (calls.map SendfileCall.moved).sum ∧ (∀ size ∈ sizes, size ≠ 0) ∧
    file.content.length ≤ (sizes.map fun size => min size (64 * 1024)).sum

/-- The loop over a `stream_file` writes the head and the file. -/
theorem sent_writeStreamFile (b : Build) (file : File) (calls : List SendfileCall)
    {sizes : List ℕ} (hsizes : ∀ size ∈ sizes, size ≠ 0)
    (hsum : file.content.length ≤ (sizes.map fun size => min size (64 * 1024)).sum)
    (r : Response) :
    (writeStreamFile b (file.outcomes calls sizes) r).result = some () ∧
      sentBy (writeStreamFile b (file.outcomes calls sizes) r)
        = ((prepareHeaders r file.content.length).head b.order).text ++ file.content := by
  have hstream : writeStreamFile b (file.outcomes calls sizes) r = (do
      asyncWrite ((prepareHeaders r file.content.length).head b.order) [] none
      streamLoop (readResults file.content sizes 0) file.content.length) := by
    have hlt := file.length_lt
    have hlen : ¬ file.content.length = UInt64.size - 1 := by
      rw [UInt64.size] at hlt ⊢
      omega
    rw [writeStreamFile]
    exact if_neg hlen
  obtain ⟨hresult, hsent⟩ := sent_streamLoop file.content hsizes 0 hsum
  rw [List.drop_zero] at hresult hsent
  rw [hstream, (sentBy_head_bind _ _).1, (sentBy_head_bind _ _).2, hresult, hsent]
  exact ⟨rfl, rfl⟩

/-- **`write_file_response`** writes the head and the file. -/
theorem sent_writeFileResponse {b : Build} (hb : b.platform ≠ .win32) (socket : SocketType)
    {file : File} {os : Outcomes} (hos : Delivers file os) {r : Response}
    (hsize : r.sendfileSize = file.content.length) :
    (writeFileResponse b socket os r).result = some () ∧
      sentBy (writeFileResponse b socket os r)
        = ((prepareHeaders r file.content.length).head b.order).text ++ file.content := by
  obtain ⟨calls, sizes, rfl, hcalls, hcallsum, hsizes, hsizesum⟩ := hos
  have hstream := sent_writeStreamFile b file calls hsizes hsizesum r
  rw [writeFileResponse]
  split_ifs with hfast
  · cases hplatform : b.platform with
    | linux =>
      have hzero : remainingAfter calls file.content.length = 0 := by
        rw [remainingAfter_of_proceeds hcalls]
        omega
      obtain ⟨hsent, htrue⟩ := sent_sendfileFastPath file calls sizes
      dsimp only
      rw [sendfileSize_prepareHeaders, hsize]
      refine ⟨?_, ?_⟩
      · refine (sentBy_head_bind _ _).2.trans ?_
        rw [Output.bind_result, htrue.mpr hzero]
        rfl
      · refine (sentBy_head_bind _ _).1.trans ?_
        refine congrArg (HAppend.hAppend _) ((sentBy_map _ _).trans ?_)
        rw [hsent, hzero, Nat.sub_zero, List.take_length]
    | win32 => exact absurd hplatform hb
    | other => exact hstream
  · exact hstream

/-! ### From the mount to the client -/

/-- A file of a mounted directory is answered with its size. -/
theorem serveStatic_mountedFile {fs : FileSystem} {calls : List (Bytes × Bytes)}
    {urlPrefix root r : Bytes} {size : ℕ} (h : MountedFile fs calls urlPrefix root r size)
    (hroot : isAbsolute root = false ∨ root <+: weaklyCanonical fs.cwd (append root r))
    {req : Request} (hget : req.method = .get) (hpath : req.path = urlPrefix ++ r) :
    serveStatic fs (mountCalls fs calls []) req
      = some (fileResponse (weaklyCanonical fs.cwd (append root r)) size) := by
  obtain ⟨stored, hstored⟩ : ∃ stored, storedRoot fs root = some stored := by
    cases habs : isAbsolute root with
    | true => exact ⟨root, storedRoot_of_absolute habs⟩
    | false => exact ⟨_, storedRoot_of_relative h.root_ne_nil habs (h.canonical root)⟩
  have hfile := weaklyCanonical_storedRoot h.root_ne_nil (h.canonical root) h.file hstored
  have htext := (prefix_storedRoot h.root_ne_nil (h.canonical root) h.file hstored).mpr hroot
  have hsel : (mountCalls fs calls []).select req.path = some (urlPrefix, stored) := by
    rw [hpath]
    exact select_mountCalls_eq_some_iff.mpr (longestMount_of_mountedFile h hstored)
  have hnonempty : urlPrefix ≠ [] := by
    rintro rfl
    exact absurd h.endsWithSep (by decide)
  have hfound := h.found
  have hregular := h.regular
  rw [← hfile] at htext hfound hregular ⊢
  rw [serveStatic_of_select hget hsel hnonempty, hpath, mountTail_append urlPrefix h.file,
    srvPath, relativePath_of_relative h.file.relative,
    answerFile_of_checks (h.canonical _) htext hfound, hregular]
  rfl

/-- The headers of the last answer of a session, when that is a file. -/
def fileFields (path : Bytes) (file : File) : List (Bytes × Bytes) :=
  [(bytes "Content-Type", extType (extension path)), (bytes "Connection", bytes "close"),
    (bytes "Content-Length", decimal file.content.length)]

theorem head_fileResponse (path : Bytes) (file : File) (o : HeaderOrder) :
    (prepareHeaders ((fileResponse path file.content.length).setHeader (bytes "Connection")
        (bytes "close")) file.content.length).head o
      = ⟨bytes "HTTP/1.1 200 OK", o.order (fileFields path file)⟩ := by
  have hstart : ({} : Response).statusLine = bytes "HTTP/1.1 200 OK" := by decide
  rw [← hstart]
  rfl

theorem noLf_extType (ext : Bytes) : 0x0A ∉ extType ext := by
  have htable : ∀ t ∈ extTypes, 0x0A ∉ t.2 := by decide +kernel
  have hfound (p : Bytes × Bytes → Bool) : 0x0A ∉
      ((extTypes.find? p).map Prod.snd).getD (bytes "application/octet-stream") := by
    cases hfind : extTypes.find? p with
    | none => exact (by decide : (0x0A : UInt8) ∉ bytes "application/octet-stream")
    | some t => exact htable t (List.mem_of_find?_eq_some hfind)
  exact hfound _

theorem noLf_fileFields (path : Bytes) (file : File) :
    ∀ e ∈ fileFields path file, 0x0A ∉ e.1 ∧ 0x0A ∉ e.2 := by
  have hdecimal : 0x0A ∉ decimal file.content.length := by
    intro hlf
    exact absurd (isDigit_of_mem_decimal hlf) (by decide)
  simp only [fileFields, List.forall_mem_cons]
  refine ⟨⟨by decide, noLf_extType _⟩, ⟨by decide, by decide⟩, ⟨by decide, hdecimal⟩, ?_⟩
  exact fun _ he => absurd he List.not_mem_nil

namespace HttpExchange

variable {ω : Type} {cfg : SessionConfig} {regs : List (Registration ω)} {host : Bytes}
  {s : HttpExchange} {es : List (Event ω)} {fs : FileSystem} {urlPrefix root r : Bytes}
  {file : File}

/-- What `get` returns for a file. -/
def downloaded (o : HeaderOrder) (path : Bytes) (file : File) : Bytes :=
  bytes "HTTP/1.1 200 OK" ++ crlf ++ (o.order (fileFields path file)).flatMap headerLine ++
    file.content

/-- What `handle_request` answers to a request for it. -/
theorem handleRequest_mountedFile
    (hmounted : MountedFile fs (Routes.mountsOf regs) urlPrefix root r file.content.length)
    (hroot : isAbsolute root = false ∨ root <+: weaklyCanonical fs.cwd (append root r))
    (hroute : Routes.firstRoute regs .get (urlPrefix ++ r) = none) (world : ω) {req : Request}
    (hget : req.method = .get) (hpath : req.path = urlPrefix ++ r) :
    (Routes.registerAll fs regs).handleRequest world fs req
      = some (fileResponse (weaklyCanonical fs.cwd (append root r)) file.content.length) := by
  have hserve := serveStatic_mountedFile hmounted hroot hget hpath
  have hmounts : mountCalls fs (Routes.mountsOf regs) [] ≠ [] := by
    intro hnil
    rw [hnil, serveStatic, if_neg (not_not_intro hget)] at hserve
    have hstatus : (404 : ℤ) = 200 := congrArg Response.status (Option.some.inj hserve)
    omega
  have hlookup := Routes.lookup_registerAll fs regs req.method req.path
  rw [hget, hpath, hroute] at hlookup
  unfold Routes.lookup at hlookup
  unfold Routes.handleRequest
  rw [hget, hpath, hlookup, Routes.staticMounts_registerAll]
  dsimp only
  rw [if_pos hmounts, hserve]

/-- **A file of a mounted directory arrives at the client**, whatever else is registered: if no
handler has been registered for its path, and the operating system delivers the whole file, the
first call returns the head of the answer and the bytes of the file. -/
theorem download (cfg : SessionConfig) (hplatform : cfg.platform ≠ .win32) (fs : FileSystem)
    (regs : List (Registration ω)) (host : Bytes) (es : List (Event ω))
    (hcall : ∀ k o, .call k o ∈ es → Plain host k) {s : HttpExchange}
    (hrun : run (step cfg (Routes.registerAll fs regs)) { host } es = some s)
    (hmounted : MountedFile fs (Routes.mountsOf regs) urlPrefix root r file.content.length)
    (hroot : isAbsolute root = false ∨ root <+: weaklyCanonical fs.cwd (append root r))
    (hroute : Routes.firstRoute regs .get (urlPrefix ++ r) = none)
    (hpass : ∀ w, .pass w ∈ es → w.fs = fs ∧ Delivers file w.os)
    {target : Bytes} {headers : List (Bytes × Bytes)} {later : List HttpClient.Call}
    (hcalls : calls es = .get target headers :: later)
    (htarget : (splitTarget target).1 = urlPrefix ++ r) :
    ∀ result, s.results.head? = some result →
      result = downloaded cfg.order (weaklyCanonical fs.cwd (append root r)) file := by
  intro result hresult
  have h : Inv cfg (Routes.registerAll fs regs) host es s :=
    inv_run (inv_start cfg _ host) (fun k o ho => (hcall k o ho).toWellFormed) hrun
  obtain ⟨k, req, w, hk, hreceived, hw, hanswer⟩ := (h.returned hcall).first result hresult
  obtain rfl : .get target headers = k := by
    rw [hcalls] at hk
    exact Option.some.inj hk
  obtain ⟨o, ho⟩ := mem_calls (by rw [hcalls]; exact List.mem_cons_self)
  have hupgrade := isWsUpgrade_of_receivedAs hreceived (hcall _ o ho)
  obtain ⟨hfs, hos⟩ := hpass w hw
  -- what the handlers answer
  have hpath : req.path = urlPrefix ++ r := by
    rw [← htarget]
    exact congrArg Prod.fst hreceived.path
  have hget : req.method = .get := hreceived.method
  have hresp : (Routes.registerAll fs regs).handleRequest w.world w.fs req
      = some (fileResponse (weaklyCanonical fs.cwd (append root r)) file.content.length) := by
    rw [hfs]
    exact handleRequest_mountedFile hmounted hroot hroute w.world hget hpath
  generalize hfile : weaklyCanonical fs.cwd (append root r) = path at hresp ⊢
  have hne : path ≠ [] := by
    rintro rfl
    have habs := isAbsolute_weaklyCanonical fs.cwd_isAbsolute (append root r)
    rw [hfile] at habs
    cases habs
  -- what `do_write` sends
  have hdoWrite (value : Bytes) :
      doWrite cfg.toBuild cfg.socketType w.os
          ((fileResponse path file.content.length).setHeader (bytes "Connection") value)
        = writeFileResponse cfg.toBuild cfg.socketType w.os
          ((fileResponse path file.content.length).setHeader (bytes "Connection") value) :=
    if_pos hne
  have hwritten (value : Bytes) :
      (doWrite cfg.toBuild cfg.socketType w.os
          ((fileResponse path file.content.length).setHeader (bytes "Connection") value)).result
        = some () := by
    rw [hdoWrite]
    exact (sent_writeFileResponse hplatform cfg.socketType hos rfl).1
  have hsent : (HttpSession.served cfg (Routes.registerAll fs regs) w req).out.flatMap Write.sent
      = (Head.mk (bytes "HTTP/1.1 200 OK") (cfg.order.order (fileFields path file))).text
        ++ file.content := by
    rw [served_of_written hupgrade hresp hwritten hanswer.last, hdoWrite, ← head_fileResponse]
    exact (sent_writeFileResponse hplatform cfg.socketType hos rfl).2
  have hheaded : crlfcrlf <:+:
      (HttpSession.served cfg (Routes.registerAll fs regs) w req).out.flatMap Write.sent := by
    rw [hsent]
    exact crlfcrlf_infix_text _ _
  rw [hanswer.headed hheaded, hsent]
  refine withoutCrLine_text (by decide : bytes "HTTP/1.1 200 OK" ≠ [])
    (by decide : 0x0A ∉ bytes "HTTP/1.1 200 OK") ?_ file.content
  exact fun e he => noLf_fileFields path file e ((cfg.order.perm _).mem_iff.mp he)

/-- A handler, and the directory `srv/www`. -/
def handlerAndMount : List (Registration Unit) :=
  [.addRoute .get (bytes "/hello") fun _ _ => some (Response.text (bytes "hi")),
    .mountStatic (bytes "/") (bytes "srv/www")]

/-- A file of one byte. -/
def oneByte : File :=
  ⟨bytes "A", by decide⟩

def deliveredAtOnce : Surroundings Unit where
  world := ()
  fs := siblingFiles
  os := oneByte.outcomes [.sends 5] [1]

/-- The answer comes in two parts. -/
def getIndex : List (Event Unit) :=
  [.call (.get (bytes "/index.html?v=1") []) reverseOrder, .toServer 68, .pass deliveredAtOnce,
    .toClient 60, .toClient 38, .returns]

theorem download_getIndex : ∃ s,
    run (step HttpSession.helloServer (Routes.registerAll siblingFiles handlerAndMount))
      { host := bytes "localhost" } getIndex = some s ∧ s.results.length = 1 ∧
    ∀ result, s.results.head? = some result →
      result = downloaded HttpSession.helloServer.order
        (weaklyCanonical siblingFiles.cwd (append (bytes "srv/www") (bytes "index.html")))
        oneByte := by
  refine ⟨_, rfl, rfl, ?_⟩
  refine download HttpSession.helloServer (by decide) siblingFiles handlerAndMount
    (bytes "localhost") getIndex (fun k o hcall => ?_) rfl
    (mountedFile_index (by decide) (by decide)) (Or.inl (by decide)) rfl (fun w hw => ?_) rfl
    (by decide)
  · have hk : k = .get (bytes "/index.html?v=1") [] := by
      simp only [getIndex, List.mem_cons, Event.call.injEq, List.not_mem_nil] at hcall
      tauto
    rw [hk]
    exact {
      target := (by decide : IsWord (bytes "/index.html?v=1"))
      hostNoLf := by decide
      hostTrimmed := by decide
      headers := fun _ he => absurd he List.not_mem_nil
      bodySize := by decide
      noKey := rfl }
  · have hw' : w = deliveredAtOnce := by
      simp only [getIndex, List.mem_cons, Event.pass.injEq, List.not_mem_nil] at hw
      tauto
    rw [hw']
    refine ⟨rfl, [.sends 5], [1], rfl, ?_, by decide, by decide, by decide⟩
    exact List.forall_mem_singleton.mpr (by simp [SendfileCall.Proceeds])

end HttpExchange

end WebSocketsLib
