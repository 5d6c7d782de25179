import AirSane.Server.OneResponse

/-! # Paths

What the server publishes for a scanner and its jobs, requested back from it:
the path of the admin URL, the `rs` record, the location of a job and its next
document, and the image on the scanner page.
-/

namespace AirSane.Server
open Text Web

/-- The text behind the first `://`. -/
def afterScheme : Octets → Option Octets
  | [] => none
  | b :: s => if ascii "://" <+: b :: s then some ((b :: s).drop 3) else afterScheme s

/-- `HttpServer::toRelativeUrl`, which throws if there is no path. -/
def toRelativeUrl (url : Octets) : Option Octets :=
  match afterScheme url with
  | none => some url
  | some s => if 47 ∈ s then some (s.dropWhile (· ≠ 47)) else none

/-- The exchange at the end of a request, or when an exception is thrown. -/
def outcome (r : Except Exchange Exchange) : Exchange :=
  match r with
  | .ok x => x
  | .error x => x

def start : Exchange := ⟨.new, 0, []⟩

/-- The job `u` is created for `POST` on a scanner's jobs. -/
def Posts (ans : Answers) (cfg : Settings) (s : Scanner) (u : Uuid) (request : Message) : Prop :=
  request.mMethod = HTTP_POST ∧ request.mUri = cfg.mBasePath ++ s.mUri ++ ScanJobsDir ∧
    ∃ job, ans.createJob s request.content (clientIsAirscan request.toRequest) = some job ∧
      job.mUuid = u.toString

/-- The header `Location` of the answer to a request. -/
def answeredLocation (ans : Answers) (cfg : Settings) (served : List ScannerEntry)
    (request : Message) : Octets :=
  (outcome (onRequest ans cfg served request start)).response.header HTTP_HEADER_LOCATION

/-- The first call that a request for `path` makes is `c`. -/
def Reaches (cfg : Settings) (served : List ScannerEntry) (method path : Octets) (c : Call) : Prop :=
  ∀ (ans : Answers) (request : Message) (x : Exchange),
    request.mMethod = method → request.mUri = path →
    x.calls ++ [c] <+: (outcome (onRequest ans cfg served request x)).calls

/-- Every published path leads back to its scanner, and to its job. -/
structure LeadsBack (cfg : Settings) (served : List ScannerEntry) : Prop where
  adminUrl : ∀ e ∈ served, e.pScanner.mAdminUrl ≠ [] →
    (toRelativeUrl e.pScanner.mAdminUrl).bind (dispatch cfg served) = some (e, [])
  rs : ∀ e ∈ served,
    dispatch cfg served (ascii "/" ++ e.pService.mTxtRecord.getString (ascii "rs")) = some (e, [])
  location : ∀ e ∈ served, ∀ ans u request, Posts ans cfg e.pScanner u request →
    Reaches cfg served HTTP_DELETE (answeredLocation ans cfg served request)
      (.cancelJob e.pScanner u.toString)
  nextDocument : ∀ e ∈ served, ∀ ans u request, Posts ans cfg e.pScanner u request →
    Reaches cfg served HTTP_GET (answeredLocation ans cfg served request ++ ascii "/NextDocument")
      (.getJob e.pScanner u.toString)
  preview : ∀ e ∈ served, ∀ (job : Job) (u : Uuid), job.mUuid = u.toString →
    Reaches cfg served HTTP_GET (previewUri e.pScanner job) (.getJob e.pScanner u.toString)

section
variable {cfg : Settings} {h : Hashing} {random : Uuid} {ds : List Device} {e e' : ScannerEntry}
  {rest : Octets} {u : Uuid} {x : Exchange} {ans : Answers} {request : Message} {s : Scanner}

variable (cfg random u) in
/-- The third character of a path with a UUID is one of a UUID. -/
theorem path_isChar : ∃ b, (pathPrefix cfg random ++ u.toString)[2]? = some b ∧ Uuid.IsChar b := by
  have hlen := u.toString_length
  have hlen' := random.toString_length
  unfold pathPrefix
  split
  · have h2 : 1 < random.toString.length := by omega
    refine ⟨random.toString[1], ?_, Uuid.toString_isChar (List.getElem_mem h2)⟩
    have hslash : ascii "/" = [47] := rfl
    rw [hslash, List.append_assoc, List.append_assoc, List.cons_append, List.getElem?_cons_succ,
      List.nil_append, List.getElem?_append_left h2, List.getElem?_eq_getElem h2]
  · have h2 : 1 < u.toString.length := by omega
    refine ⟨u.toString[1], ?_, Uuid.toString_isChar (List.getElem_mem h2)⟩
    have hslash : ascii "/" = [47] := rfl
    rw [hslash, List.cons_append, List.getElem?_cons_succ, List.nil_append,
      List.getElem?_eq_getElem h2]

theorem eSCL_not_isChar : ∃ b, (ascii "/eSCL")[2]? = some b ∧ ¬ Uuid.IsChar b :=
  ⟨83, by decide, by simp [Uuid.IsChar, digitValue]⟩

theorem getElem?_of_begins {a b : Octets} {i : ℕ} {c : UInt8} (hp : a <+: b)
    (hc : a[i]? = some c) : b[i]? = some c := by
  obtain ⟨t, rfl⟩ := hp
  obtain ⟨hi, -⟩ := List.getElem?_eq_some_iff.1 hc
  rw [List.getElem?_append_left hi, hc]

/-- No path of a scanner begins with that of another one. -/
theorem uri_eq_of_begins (he : e ∈ (discover cfg h random ds).mScanners)
    (he' : e' ∈ (discover cfg h random ds).mScanners)
    (hp : e'.pScanner.mUri <+: e.pScanner.mUri ++ rest) : e'.pScanner.mUri = e.pScanner.mUri := by
  obtain ⟨u, hu⟩ := uuids_discover ds (List.mem_map_of_mem he)
  obtain ⟨u', hu'⟩ := uuids_discover ds (List.mem_map_of_mem he')
  obtain ⟨c, hc, hnot⟩ := eSCL_not_isChar
  rcases served_uri ds he with hfirst | huuid
  · rcases served_uri ds he' with hfirst' | huuid'
    · rw [hfirst, hfirst']
    · exfalso
      obtain ⟨b, hb, hchar⟩ := path_isChar cfg random u'
      rw [huuid', hu', hfirst] at hp
      have hb' := getElem?_of_begins hp hb
      rw [getElem?_of_begins (List.prefix_append _ _) hc] at hb'
      exact hnot (Option.some.inj hb' ▸ hchar)
  · rcases served_uri ds he' with hfirst' | huuid'
    · exfalso
      obtain ⟨b, hb, hchar⟩ := path_isChar cfg random u
      rw [hfirst', huuid, hu] at hp
      have hc' := getElem?_of_begins hp hc
      rw [getElem?_of_begins (List.prefix_append _ _) hb] at hc'
      exact hnot (Option.some.inj hc' ▸ hchar)
    · have hlen : e'.pScanner.mUri.length = e.pScanner.mUri.length := by
        rw [huuid, huuid', hu, hu', List.length_append, List.length_append, u.toString_length,
          u'.toString_length]
      exact (List.prefix_of_prefix_length_le hp (List.prefix_append _ rest) hlen.le).eq_of_length hlen

theorem uris_nodup (hnodup : (uuids (discover cfg h random ds).mScanners).Nodup) :
    (uris (discover cfg h random ds).mScanners).Nodup := by
  obtain ⟨b, hb⟩ := uris_discover cfg h random ds
  rw [hb]
  exact nodup_assignUris (fun u hu => uuids_discover ds hu) hnodup

variable (rest) in
/-- A path below that of a scanner is dispatched to it. -/
theorem dispatch_own (hnodup : (uuids (discover cfg h random ds).mScanners).Nodup)
    (he : e ∈ (discover cfg h random ds).mScanners) :
    dispatch cfg (discover cfg h random ds).mScanners
      (cfg.mBasePath ++ e.pScanner.mUri ++ rest) = some (e, rest) := by
  have hsome : ((discover cfg h random ds).mScanners.find? fun entry =>
      decide (cfg.mBasePath ++ entry.pScanner.mUri <+: cfg.mBasePath ++ e.pScanner.mUri ++ rest)).isSome := by
    rw [List.find?_isSome]
    exact ⟨e, he, by simp⟩
  obtain ⟨e', hfind⟩ := Option.isSome_iff_exists.1 hsome
  have hp := List.find?_some hfind
  have he' := List.mem_of_find?_eq_some hfind
  rw [decide_eq_true_eq, List.append_assoc, List.prefix_append_right_inj] at hp
  have hee : e' = e :=
    List.inj_on_of_nodup_map (uris_nodup hnodup) he' he (uri_eq_of_begins he he' hp)
  rw [dispatch, hfind, Option.map_some, hee, List.drop_left]

theorem onRequest_own (hnodup : (uuids (discover cfg h random ds).mScanners).Nodup)
    (he : e ∈ (discover cfg h random ds).mScanners)
    (huri : request.mUri = cfg.mBasePath ++ e.pScanner.mUri ++ rest) :
    onRequest ans cfg (discover cfg h random ds).mScanners request x =
      handleScannerRequest ans cfg e rest request x := by
  have hd := dispatch_own rest hnodup he
  rw [← huri] at hd
  have hpage : ¬ (request.mUri = cfg.mBasePath ++ ascii "/" ∨ request.mUri = ascii "/reset") := by
    intro hp
    rw [dispatch_page ds hp] at hd
    cases hd
  have hpass : serverPages ans cfg (discover cfg h random ds).mScanners request.mUri x = .ok x := by
    rw [not_or] at hpage
    simp [serverPages, hpage.1, hpage.2]
  rw [onRequest, hpass]
  simp only [bind, Except.bind, hd]

theorem ne_of_length {a b : Octets} (hab : b.length < a.length) : a ≠ b := by
  rintro rfl
  omega

/-- Requests with a long path are for jobs. -/
theorem handleScannerRequest_long (hlen : 20 < rest.length) :
    handleScannerRequest ans cfg e rest request x =
      handleJobRequest ans e.pScanner rest request x := by
  have hne : ∀ b : Octets, b.length ≤ 20 → rest ≠ b := fun b hb => ne_of_length (by omega)
  simp [handleScannerRequest, hne [] (by decide), hne (ascii "/") (by decide),
    hne (ascii "/ScannerIcon") (by decide), hne (ascii "/ScannerCapabilities") (by decide),
    hne (ascii "/ScannerStatus") (by decide), hne ScanJobsDir (by decide)]

theorem slash_not_mem : (47 : UInt8) ∉ u.toString := fun hm =>
  Uuid.not_isChar_slash (Uuid.toString_isChar hm)

variable (u rest) in
theorem jobPath_length : 20 < (ascii "/ScanJobs/" ++ u.toString ++ rest).length := by
  have hlen := u.toString_length
  simp only [List.length_append]
  omega

variable (u rest) in
theorem jobPath_drop :
    (ascii "/ScanJobs/" ++ u.toString ++ rest).drop ScanJobsDir.length = 47 :: (u.toString ++ rest) := by
  have hdir : ascii "/ScanJobs/" = ScanJobsDir ++ [47] := rfl
  rw [hdir, List.append_assoc, List.append_assoc, List.drop_left]
  rfl

variable (u rest) in
theorem scanJobsDir_jobPath : ScanJobsDir <+: ascii "/ScanJobs/" ++ u.toString ++ rest := by
  have hdir : ascii "/ScanJobs/" = ScanJobsDir ++ [47] := rfl
  rw [hdir, List.append_assoc, List.append_assoc]
  exact List.prefix_append _ _

theorem calls_commit (x : Exchange) (r : Option Response) : (outcome (x.commit r)).calls = x.calls := by
  cases r <;> rfl

theorem calls_bind {calls : List Call} {m : Except Exchange Exchange}
    {f : Exchange → Except Exchange Exchange} (hm : calls <+: (outcome m).calls)
    (hf : ∀ x, x.calls <+: (outcome (f x)).calls) : calls <+: (outcome (m >>= f)).calls := by
  cases m with
  | error x => exact hm
  | ok x => exact hm.trans (hf x)

theorem handleJobRequest_delete (hm : request.mMethod = HTTP_DELETE) :
    (outcome (handleJobRequest ans s (ascii "/ScanJobs/" ++ u.toString) request x)).calls =
      x.calls ++ [.cancelJob s u.toString] := by
  have hdir := scanJobsDir_jobPath [] u
  have hdrop := jobPath_drop [] u
  rw [List.append_nil] at hdir hdrop
  rw [List.append_nil] at hdrop
  unfold handleJobRequest
  dsimp only
  rw [if_neg (not_not.2 hdir), hdrop, if_neg (by simp), List.drop_one, List.tail_cons,
    if_pos slash_not_mem, if_pos hm]
  split
  · exact calls_commit _ _
  · rfl

theorem calls_nextDocument {job : Job} :
    x.calls <+: (outcome (nextDocument s job x)).calls := by
  unfold nextDocument
  dsimp only
  split
  · rw [Exchange.send, calls_commit]
    exact List.prefix_rfl
  · split
    · apply calls_bind
      · rw [Exchange.send, calls_commit]
        simp
      · intro x'
        simp [outcome]
    · split
      · rw [Exchange.send, calls_commit]
        simp
      · rw [Exchange.send, calls_commit]
        simp

theorem handleJobRequest_next (hm : request.mMethod = HTTP_GET) :
    x.calls ++ [.getJob s u.toString] <+: (outcome (handleJobRequest ans s
      (ascii "/ScanJobs/" ++ u.toString ++ ascii "/NextDocument") request x)).calls := by
  have htext : ascii "/NextDocument" = 47 :: ascii "NextDocument" := rfl
  have hchars : ∀ b ∈ u.toString, (fun b : UInt8 => decide (b ≠ 47)) b = true := by
    intro b hb
    rw [decide_eq_true_eq]
    rintro rfl
    exact slash_not_mem hb
  have hdropWhile : (u.toString ++ ascii "/NextDocument").dropWhile (· ≠ 47) =
      ascii "/NextDocument" := by
    rw [List.dropWhile_append_of_pos hchars]
    rfl
  have htakeWhile : (u.toString ++ ascii "/NextDocument").takeWhile (· ≠ 47) = u.toString := by
    rw [List.takeWhile_append_of_pos hchars, htext, List.takeWhile_cons_of_neg (by simp),
      List.append_nil]
  unfold handleJobRequest
  dsimp only
  rw [if_neg (not_not.2 (scanJobsDir_jobPath _ u)), jobPath_drop, if_neg (by simp), List.drop_one,
    List.tail_cons, if_neg (by simp [htext]), if_pos ⟨hdropWhile, hm⟩, htakeWhile]
  split
  · exact List.prefix_rfl
  · exact calls_nextDocument (x := x.call (.getJob s u.toString))

/-- Where there is no base path, paths below that of a scanner reach it. -/
theorem reaches_delete (hbase : cfg.mBasePath = [])
    (hnodup : (uuids (discover cfg h random ds).mScanners).Nodup)
    (he : e ∈ (discover cfg h random ds).mScanners) :
    Reaches cfg (discover cfg h random ds).mScanners HTTP_DELETE
      (e.pScanner.mUri ++ ascii "/ScanJobs/" ++ u.toString) (.cancelJob e.pScanner u.toString) := by
  intro ans request x hm huri
  have hlen := jobPath_length [] u
  rw [List.append_nil] at hlen
  have hown : request.mUri = cfg.mBasePath ++ e.pScanner.mUri ++ (ascii "/ScanJobs/" ++ u.toString) := by
    rw [huri, hbase]
    simp
  rw [onRequest_own hnodup he hown, handleScannerRequest_long hlen]
  exact (handleJobRequest_delete hm).symm ▸ List.prefix_rfl

theorem reaches_next (hbase : cfg.mBasePath = [])
    (hnodup : (uuids (discover cfg h random ds).mScanners).Nodup)
    (he : e ∈ (discover cfg h random ds).mScanners) :
    Reaches cfg (discover cfg h random ds).mScanners HTTP_GET
      (e.pScanner.mUri ++ ascii "/ScanJobs/" ++ u.toString ++ ascii "/NextDocument")
      (.getJob e.pScanner u.toString) := by
  intro ans request x hm huri
  have hown : request.mUri = cfg.mBasePath ++ e.pScanner.mUri ++
      (ascii "/ScanJobs/" ++ u.toString ++ ascii "/NextDocument") := by
    rw [huri, hbase]
    simp
  rw [onRequest_own hnodup he hown, handleScannerRequest_long (jobPath_length _ u)]
  exact handleJobRequest_next hm

/-- Paths of scanners begin with a slash and have no white space. -/
theorem uri_text (he : e ∈ (discover cfg h random ds).mScanners) :
    (∃ t, e.pScanner.mUri = 47 :: t) ∧ ∀ b ∈ e.pScanner.mUri, isspace b = false := by
  obtain ⟨u, hu⟩ := uuids_discover ds (List.mem_map_of_mem he)
  have hslash : ascii "/" = [47] := rfl
  rcases served_uri ds he with hfirst | huuid
  · rw [hfirst]
    exact ⟨⟨ascii "eSCL", rfl⟩, forall_mem_of_all (by decide)⟩
  · rw [huuid, hu, pathPrefix]
    split
    · refine ⟨⟨random.toString ++ [47] ++ u.toString, by simp [hslash]⟩, ?_⟩
      simp only [hslash, List.mem_append, List.mem_singleton]
      rintro b (((rfl | hb) | rfl) | hb)
      · decide
      · exact Uuid.isChar_not_space (Uuid.toString_isChar hb)
      · decide
      · exact Uuid.isChar_not_space (Uuid.toString_isChar hb)
    · refine ⟨⟨u.toString, by simp [hslash]⟩, ?_⟩
      simp only [hslash, List.mem_append, List.mem_singleton]
      rintro b (rfl | hb)
      · decide
      · exact Uuid.isChar_not_space (Uuid.toString_isChar hb)

theorem jobUri_not_space (he : e ∈ (discover cfg h random ds).mScanners) :
    ∀ b ∈ e.pScanner.mUri ++ ascii "/ScanJobs/" ++ u.toString, isspace b = false := by
  have hdir : ∀ b ∈ ascii "/ScanJobs/", isspace b = false := forall_mem_of_all (by decide)
  intro b hb
  rcases List.mem_append.1 hb with hb | hb
  · rcases List.mem_append.1 hb with hb | hb
    · exact (uri_text he).2 b hb
    · exact hdir b hb
  · exact Uuid.isChar_not_space (Uuid.toString_isChar hb)

/-- A location that has been set is sent. -/
theorem header_send {v : Octets} (hv : ∀ b ∈ v, isspace b = false) (hne : v ≠ []) :
    (outcome (((start.call (.createJob s)).setStatus 201).setHeader HTTP_HEADER_LOCATION
      v).send).response.header HTTP_HEADER_LOCATION = v := by
  have hkey : ctolower (ctrim HTTP_HEADER_LOCATION) = HTTP_HEADER_LOCATION := by decide +kernel
  have hset := setHeader_clean (r := start.response.setStatus 201) hkey (ctrim_eq_self hv) hne
  have herase : Dictionary.eraseKey [(HTTP_HEADER_LOCATION, v)] HTTP_HEADER_CONTENT_LENGTH =
      [(HTTP_HEADER_LOCATION, v)] := by
    have hkey : HTTP_HEADER_LOCATION ≠ HTTP_HEADER_CONTENT_LENGTH := by decide
    simp [Dictionary.eraseKey, hkey]
  have hsend : (start.response.setStatus 201 |>.setHeader HTTP_HEADER_LOCATION v).send =
      some (⟨[], false, 201, [(HTTP_HEADER_LOCATION, v), (HTTP_HEADER_CONNECTION, ascii "close")],
        none⟩ : Response).emitHeaders := by
    have hassign : Dictionary.assign [] HTTP_HEADER_LOCATION v = [(HTTP_HEADER_LOCATION, v)] := rfl
    have hclose : Dictionary.assign [(HTTP_HEADER_LOCATION, v)] HTTP_HEADER_CONNECTION (ascii "close") =
        [(HTTP_HEADER_LOCATION, v), (HTTP_HEADER_CONNECTION, ascii "close")] := by
      have hkey : HTTP_HEADER_LOCATION ≠ HTTP_HEADER_CONNECTION := by decide
      simp [Dictionary.assign, hkey]
    have hnone : Dictionary.getString
        [(HTTP_HEADER_LOCATION, v), (HTTP_HEADER_CONNECTION, ascii "close")]
        HTTP_HEADER_TRANSFER_ENCODING = [] := by
      have hkey : HTTP_HEADER_LOCATION ≠ HTTP_HEADER_TRANSFER_ENCODING := by decide
      have hkey' : HTTP_HEADER_CONNECTION ≠ HTTP_HEADER_TRANSFER_ENCODING := by decide
      simp [Dictionary.getString, hkey, hkey']
    have hidentity : ctolower [] ≠ ascii "identity" := by decide
    have hchunked : ctolower [] ≠ ascii "chunked" := by decide
    have hempty : ctolower [] = [] := rfl
    rw [hset, Response.send, setHeader_nil, Response.sendHeaders]
    simp only [setHeader_close, start, Response.new, Response.setStatus, hassign, herase, hclose,
      Response.header, key_transferEncoding, hnone, if_neg hidentity, if_neg hchunked,
      if_pos hempty]
  have hlocation : ctolower (ctrim HTTP_HEADER_LOCATION) = HTTP_HEADER_LOCATION := by decide +kernel
  have hcommit : (((start.call (.createJob s)).setStatus 201).setHeader HTTP_HEADER_LOCATION v).send =
      Exchange.commit (((start.call (.createJob s)).setStatus 201).setHeader HTTP_HEADER_LOCATION v)
        (start.response.setStatus 201 |>.setHeader HTTP_HEADER_LOCATION v).send := rfl
  rw [hcommit, hsend]
  simp [Exchange.commit, outcome, Response.header, Response.emitHeaders, hlocation,
    Dictionary.getString]

/-- The location of a new job is its URI. -/
theorem answeredLocation_eq (hnodup : (uuids (discover cfg h random ds).mScanners).Nodup)
    (he : e ∈ (discover cfg h random ds).mScanners) (hposts : Posts ans cfg e.pScanner u request) :
    answeredLocation ans cfg (discover cfg h random ds).mScanners request =
      e.pScanner.mUri ++ ascii "/ScanJobs/" ++ u.toString := by
  obtain ⟨hm, huri, job, hjob, huuid⟩ := hposts
  have huri' : job.uri e.pScanner = e.pScanner.mUri ++ ascii "/ScanJobs/" ++ u.toString := by
    rw [Job.uri, huuid]
  have hhandle : handleScannerRequest ans cfg e ScanJobsDir request start =
      (((start.call (.createJob e.pScanner)).setStatus 201).setHeader HTTP_HEADER_LOCATION
        (job.uri e.pScanner)).send := by
    have hnil : ScanJobsDir ≠ [] := by decide
    have hslash : ScanJobsDir ≠ ascii "/" := by decide
    have hicon : ScanJobsDir ≠ ascii "/ScannerIcon" := by decide
    have hcaps : ScanJobsDir ≠ ascii "/ScannerCapabilities" := by decide
    have hstatus : ScanJobsDir ≠ ascii "/ScannerStatus" := by decide
    simp [handleScannerRequest, hnil, hslash, hicon, hcaps, hstatus, hm, hjob]
  rw [answeredLocation, onRequest_own hnodup he huri, hhandle, huri']
  apply header_send (jobUri_not_space he)
  simp [ascii]

theorem afterScheme_http (t : Octets) : afterScheme (ascii "http" ++ ascii "://" ++ t) = some t := by
  simp [afterScheme, ascii, List.cons_prefix_cons]

theorem afterScheme_https (t : Octets) :
    afterScheme (ascii "http" ++ ascii "s" ++ ascii "://" ++ t) = some t := by
  simp [afterScheme, ascii, List.cons_prefix_cons]

/-- The path of an admin URL, where there is no base path. -/
theorem toRelativeUrl_adminUrl (hbase : cfg.mBasePath = [])
    (he : e ∈ (discover cfg h random ds).mScanners) (hne : e.pScanner.mAdminUrl ≠ []) :
    toRelativeUrl e.pScanner.mAdminUrl = some e.pScanner.mUri := by
  have hurl : e.pScanner.mAdminUrl = scannerUrl cfg e.pScanner := by
    have hserved := served_adminUrl ds he
    split at hserved
    · exact hserved
    · exact absurd hserved hne
  have hscheme : afterScheme (scannerUrl cfg e.pScanner) =
      some (cfg.mHostname.1 ++ ascii ":" ++ numeral 10 cfg.port ++ e.pScanner.mUri) := by
    rw [scannerUrl, hbase]
    cases cfg.mAnnouncesecure with
    | false =>
      have hs := afterScheme_http
        (cfg.mHostname.1 ++ ascii ":" ++ numeral 10 cfg.port ++ e.pScanner.mUri)
      simpa using hs
    | true =>
      have hs := afterScheme_https
        (cfg.mHostname.1 ++ ascii ":" ++ numeral 10 cfg.port ++ e.pScanner.mUri)
      simpa using hs
  have hfront : ∀ b ∈ cfg.mHostname.1 ++ ascii ":" ++ numeral 10 cfg.port,
      (fun b : UInt8 => decide (b ≠ 47)) b = true := by
    intro b hb
    rw [decide_eq_true_eq]
    rintro rfl
    rcases List.mem_append.1 hb with hb | hb
    · rcases List.mem_append.1 hb with hb | hb
      · exact cfg.mHostname.2 hb
      · revert hb
        decide
    · obtain ⟨d, hd⟩ := numeral_digit (by omega) (by omega) hb
      simp [digitValue] at hd
  obtain ⟨t, ht⟩ := (uri_text he).1
  rw [hurl, toRelativeUrl, hscheme]
  simp only [ht]
  rw [if_pos (by simp), List.dropWhile_append_of_pos hfront, List.dropWhile_cons_of_neg (by simp)]

theorem rs_eq (he : e ∈ (discover cfg h random ds).mScanners) :
    ascii "/" ++ e.pService.mTxtRecord.getString (ascii "rs") = e.pScanner.mUri := by
  obtain ⟨t, ht⟩ := (uri_text he).1
  rw [served_rs ds he, rsRecord, ht]
  rfl

/-- With a base path, the `rs` record does not lead back. -/
theorem basePath_of_leadsBack (hback : LeadsBack cfg (discover cfg h random ds).mScanners) :
    cfg.mBasePath = [] ∨ (discover cfg h random ds).mScanners = [] := by
  by_cases hnil : (discover cfg h random ds).mScanners = []
  · exact .inr hnil
  · obtain ⟨e, he⟩ := List.exists_mem_of_ne_nil _ hnil
    have hrs := hback.rs e he
    rw [rs_eq he] at hrs
    obtain ⟨e', hfind, hpair⟩ := Option.map_eq_some_iff.1 hrs
    have hp := List.find?_some hfind
    rw [(Prod.mk.inj hpair).1, decide_eq_true_eq] at hp
    have hlen := hp.length_le
    rw [List.length_append] at hlen
    exact .inl (List.eq_nil_of_length_eq_zero (by omega))

end

/-- Published paths lead back exactly if there is no base path or no scanner. -/
theorem leadsBack_iff (cfg : Settings) (h : Hashing) (random : Uuid) (ds : List Device)
    (hnodup : (uuids (discover cfg h random ds).mScanners).Nodup) :
    LeadsBack cfg (discover cfg h random ds).mScanners ↔
      cfg.mBasePath = [] ∨ (discover cfg h random ds).mScanners = [] := by
  constructor
  · exact basePath_of_leadsBack
  · rintro (hbase | hnil)
    · have hown : ∀ e ∈ (discover cfg h random ds).mScanners,
          dispatch cfg (discover cfg h random ds).mScanners e.pScanner.mUri = some (e, []) := by
        intro e he
        have hdispatch := dispatch_own [] hnodup he
        rw [hbase, List.append_nil] at hdispatch
        exact hdispatch
      refine ⟨fun e he hne => ?_, fun e he => ?_, fun e he ans u request hposts => ?_,
        fun e he ans u request hposts => ?_, fun e he job u huuid => ?_⟩
      · rw [toRelativeUrl_adminUrl hbase he hne]
        exact hown e he
      · rw [rs_eq he]
        exact hown e he
      · rw [answeredLocation_eq hnodup he hposts]
        exact reaches_delete hbase hnodup he
      · rw [answeredLocation_eq hnodup he hposts]
        exact reaches_next hbase hnodup he
      · rw [previewUri, Job.uri, huuid]
        exact reaches_next hbase hnodup he
    · rw [hnil]
      exact ⟨nofun, nofun, nofun, nofun, nofun⟩

theorem leadsBack_iff_standard :
    LeadsBack .standard (discover .standard ⟨[], fun _ _ => 0⟩ .nil [.standard]).mScanners ↔
      Settings.standard.mBasePath = [] ∨
        (discover .standard ⟨[], fun _ _ => 0⟩ .nil [.standard]).mScanners = [] :=
  leadsBack_iff .standard ⟨[], fun _ _ => 0⟩ .nil [.standard] (by decide +kernel)

/-- A proxy serves the scanner below `/scanners`. -/
theorem not_leadsBack_basePath :
    ∃ (cfg : Settings) (h : Hashing) (random : Uuid) (ds : List Device),
      (uuids (discover cfg h random ds).mScanners).Nodup ∧
        ¬ LeadsBack cfg (discover cfg h random ds).mScanners := by
  refine ⟨{ Settings.standard with mBasePath := ascii "/scanners" }, ⟨[], fun _ _ => 0⟩, .nil,
    [.standard], by decide +kernel, fun hback => ?_⟩
  rcases basePath_of_leadsBack hback with hbase | hnil
  · revert hbase
    decide
  · have hlen := congrArg List.length hnil
    revert hlen
    decide +kernel

end AirSane.Server
