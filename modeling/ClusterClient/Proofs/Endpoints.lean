import ClusterClient.Proofs.Construction
import ClusterClient.Proofs.DotSegments

/-!
# Where the URL of a request leads

An endpoint is accepted if it begins like a web URL. Nothing else is asked of it, so it need not
name a host, and it may bring a query or a fragment of its own. The URL of a request is the endpoint
without its trailing slashes, with the path behind it, and what the path becomes depends on what the
endpoint ends in.

```text
http://host/base/ + /v1/x  =  http://host/base/v1/x
http://host?zone  + /v1/x  =  http://host?zone/v1/x       a longer query
http://           + /v1/x  =  http:/v1/x                  a request to the host v1
```

## The architecture

* **`Parts`**: a URL as scheme, authority, path and what follows a mark. A URL is split in one way
  only, which `WebUrl.authority`, `WebUrl.path` and `WebUrl.tail` compute.
* **`Parts.join`**: the parts of a joined URL, from those of the endpoint.
* **`OnEndpoint`**: the path is asked for at the authority of the endpoint.
* **`origin_joinUrl`**: the host that an HTTP client finds in a joined URL. `Anchored` endpoints are
  those where it finds the same for all paths.
* **`Roster.url_on_endpoint`**: which of the accepted endpoints keep a request with them.
-/

namespace ClusterClient

/-! ## The parts of a URL -/

/-- Whether a character begins no query and no fragment. -/
def isPlain (c : Char) : Bool :=
  c != '?' && c != '#'

def isInAuthority (c : Char) : Bool :=
  c != '/' && isPlain c

/-- A path without a query or fragment. -/
def Unmarked (path : String) : Prop :=
  ∀ c ∈ path.toList, isPlain c = true

/-- A slash in front adds no mark. -/
theorem Unmarked.absolutePath {path : String} (h : Unmarked path) :
    Unmarked (absolutePath path) := by
  unfold ClusterClient.absolutePath
  split
  · exact h
  · intro c hc
    rw [String.toList_ofList, List.mem_cons] at hc
    rcases hc with rfl | hc
    · rfl
    · exact h c hc

namespace WebUrl

/-- What follows the scheme and two slashes. -/
def rest (url : String) : List Char :=
  (url.toList.dropWhile (· != ':')).drop 3

def authority (url : String) : List Char :=
  (rest url).takeWhile isInAuthority

/-- The path behind the authority, up to a query or fragment. -/
def path (url : String) : List Char :=
  ((rest url).dropWhile isInAuthority).takeWhile isPlain

/-- Query and fragment with their marks. -/
def tail (url : String) : List Char :=
  ((rest url).dropWhile isInAuthority).dropWhile isPlain

end WebUrl

/-- A URL that is made of these parts. -/
structure Parts (url : String) (scheme authority path tail : List Char) : Prop where
  eq : url.toList = scheme ++ ':' :: '/' :: '/' :: (authority ++ (path ++ tail))
  web : scheme = "http".toList ∨ scheme = "https".toList
  inside : ∀ c ∈ authority, isInAuthority c = true
  plain : ∀ c ∈ path, isPlain c = true
  /-- The authority ends at a slash, at a mark or with the URL. -/
  slash : ∀ c ∈ path.head?, c = '/'
  mark : ∀ c ∈ tail.head?, isPlain c = false

/-- What is taken of a list stops where a predicate fails. -/
theorem takeWhile_append_of_stop {p : Char → Bool} {cs ds : List Char} (hcs : ∀ c ∈ cs, p c = true)
    (hds : ∀ c ∈ ds.head?, p c = false) :
    (cs ++ ds).takeWhile p = cs ∧ (cs ++ ds).dropWhile p = ds := by
  rw [List.takeWhile_append_of_pos hcs, List.dropWhile_append_of_pos hcs]
  cases ds with
  | nil => simp
  | cons d ds => simp [hds d rfl]

theorem head?_dropWhile {p : Char → Bool} (cs : List Char) :
    ∀ c ∈ (cs.dropWhile p).head?, p c = false := by
  intro c hc
  simpa [Option.mem_def.mp hc] using List.head?_dropWhile_not p cs

namespace Parts

variable {url : String} {scheme authority path tail : List Char}

/-- A scheme has no colon, so the first colon of a URL ends it. -/
theorem not_mem_scheme (h : Parts url scheme authority path tail) : ':' ∉ scheme := by
  rcases h.web with rfl | rfl <;> decide

/-- A URL of these parts passes the check of endpoints. -/
theorem startsWeb (h : Parts url scheme authority path tail) : StartsWeb url := by
  unfold StartsWeb
  rw [h.eq]
  rcases h.web with rfl | rfl
  · exact .inl ⟨_, rfl⟩
  · exact .inr ⟨_, rfl⟩

/-- After the scheme come the authority, the path and the tail. -/
theorem rest_eq (h : Parts url scheme authority path tail) :
    WebUrl.rest url = authority ++ (path ++ tail) := by
  have hscheme : ∀ c ∈ scheme, (c != ':') = true := fun c hc =>
    bne_iff_ne.mpr (ne_of_mem_of_not_mem hc h.not_mem_scheme)
  rw [WebUrl.rest, h.eq, (takeWhile_append_of_stop hscheme (by simp)).2]
  rfl

/-- **A URL has one authority, one path and one tail.** -/
theorem unique (h : Parts url scheme authority path tail) :
    WebUrl.authority url = authority ∧ WebUrl.path url = path ∧ WebUrl.tail url = tail := by
  have hstop : ∀ c ∈ (path ++ tail).head?, isInAuthority c = false := by
    intro c hc
    cases path with
    | nil => simp [isInAuthority, h.mark c hc]
    | cons d path => simp [isInAuthority, h.slash c hc]
  obtain ⟨hauthority, hrest⟩ := takeWhile_append_of_stop h.inside hstop
  obtain ⟨hpath, htail⟩ := takeWhile_append_of_stop h.plain h.mark
  rw [WebUrl.authority, WebUrl.path, WebUrl.tail, h.rest_eq, hauthority, hrest, hpath, htail]
  exact ⟨rfl, rfl, rfl⟩

end Parts

/-- **Every text that begins like a web URL has these parts.** -/
theorem StartsWeb.parts {url : String} (h : StartsWeb url) :
    ∃ scheme, Parts url scheme (WebUrl.authority url) (WebUrl.path url) (WebUrl.tail url) := by
  -- the scheme ends where the first colon stands
  obtain ⟨scheme, hscheme, heq⟩ : ∃ scheme, (scheme = "http".toList ∨ scheme = "https".toList) ∧
      url.toList = scheme ++ ':' :: '/' :: '/' :: WebUrl.rest url := by
    unfold WebUrl.rest
    rcases h with ⟨rest, hrest⟩ | ⟨rest, hrest⟩
    · exact ⟨_, .inl rfl, by rw [← hrest]; rfl⟩
    · exact ⟨_, .inr rfl, by rw [← hrest]; rfl⟩
  refine ⟨scheme, ?_, hscheme, fun c => List.mem_takeWhile_imp, fun c => List.mem_takeWhile_imp,
    fun c hc => ?_, head?_dropWhile _⟩
  · rw [heq]
    simp [WebUrl.authority, WebUrl.path, WebUrl.tail]
  · -- behind the authority stands a slash or a mark, and a mark is not taken into the path
    have hstop := head?_dropWhile (p := isInAuthority) (WebUrl.rest url)
    unfold WebUrl.path at hc
    cases hrest : (WebUrl.rest url).dropWhile isInAuthority with
    | nil => simp [hrest] at hc
    | cons d ds =>
      have hplain : isPlain c = true := List.mem_takeWhile_imp (List.mem_of_mem_head? hc)
      obtain rfl : d = c := by
        rw [hrest] at hc
        by_cases hd : isPlain d = true <;> simp_all
      have hout : isInAuthority d = false := hstop d (by simp [hrest])
      simpa [isInAuthority, hplain] using hout

/-! ## Joining a path -/

/-- The URL for a path is on the endpoint: its authority is that of the endpoint, and its path ends
in the path. -/
def OnEndpoint (endpoint path : String) : Prop :=
  StartsWeb (joinUrl endpoint path) ∧
    WebUrl.authority (joinUrl endpoint path) = WebUrl.authority endpoint ∧
    WebUrl.authority (joinUrl endpoint path) ≠ [] ∧
    path.toList <:+ WebUrl.path (joinUrl endpoint path)

namespace Parts

variable {endpoint path : String} {scheme authority base tail : List Char}

/-- The trimming of slashes does not reach the authority. -/
theorem trimSlashes_eq (h : Parts endpoint scheme authority base tail) (hne : authority ≠ []) :
    trimSlashes endpoint.toList =
      scheme ++ ':' :: '/' :: '/' :: (authority ++ trimSlashes (base ++ tail)) := by
  -- the last character of the authority is no slash, and trimming stops behind it
  obtain ⟨front, c, rfl⟩ := (List.eq_nil_or_concat authority).resolve_left hne
  have hc : c ≠ '/' := by
    rintro rfl
    exact absurd (h.inside '/' (by simp)) (by decide)
  have hsplit : endpoint.toList = (scheme ++ ':' :: '/' :: '/' :: front) ++ c :: (base ++ tail) := by
    rw [h.eq]
    simp
  rw [hsplit, trimSlashes_append_cons hc]
  simp

/-- **An endpoint without query and fragment.** The path is put behind its own one. -/
theorem join (h : Parts endpoint scheme authority base []) (hne : authority ≠ [])
    (hslash : path.toList.head? = some '/') (hplain : Unmarked path) :
    Parts (joinUrl endpoint path) scheme authority (trimSlashes base ++ path.toList) [] := by
  refine ⟨?_, h.web, h.inside, fun c hc => ?_, fun c hc => ?_, by simp⟩
  · rw [toList_joinUrl, absolutePath_of_slash hslash, h.trimSlashes_eq hne]
    simp
  · rcases List.mem_append.mp hc with hc | hc
    · exact h.plain c ((trimSlashes_isPrefix base).subset hc)
    · exact hplain c hc
  · -- what is left of the endpoint's own path begins with its slash; if nothing is left, the
    -- path of the request follows the authority
    obtain ⟨trimmed, hbase⟩ := trimSlashes_isPrefix base
    cases htrim : trimSlashes base with
    | nil => simpa [htrim, hslash, eq_comm] using hc
    | cons d ds =>
      rw [htrim] at hbase
      have hd : d = '/' := h.slash d (by rw [← hbase]; rfl)
      simpa [htrim, hd, eq_comm] using hc

/-- **An endpoint with a query or fragment.** The path is lost in it. -/
theorem join_tail (h : Parts endpoint scheme authority base tail) (hne : authority ≠ [])
    (htail : tail ≠ []) (hslash : path.toList.head? = some '/') :
    Parts (joinUrl endpoint path) scheme authority base (trimSlashes tail ++ path.toList) := by
  obtain ⟨m, ms, rfl⟩ := List.exists_cons_of_ne_nil htail
  have hmark : isPlain m = false := h.mark m rfl
  have hm : m ≠ '/' := by
    rintro rfl
    exact absurd hmark (by decide)
  have htrim : trimSlashes (m :: ms) = m :: trimSlashes ms := trimSlashes_append_cons hm [] ms
  refine ⟨?_, h.web, h.inside, h.plain, h.slash, fun c hc => ?_⟩
  · rw [toList_joinUrl, absolutePath_of_slash hslash, h.trimSlashes_eq hne,
      trimSlashes_append_cons hm, htrim]
    simp
  · obtain rfl : m = c := by simpa [htrim] using hc
    exact hmark

end Parts

/-- **Which paths are asked for at an endpoint.** -/
theorem onEndpoint_iff {endpoint path : String} (hweb : StartsWeb endpoint)
    (hslash : path.toList.head? = some '/') (hplain : Unmarked path) :
    OnEndpoint endpoint path ↔ WebUrl.authority endpoint ≠ [] ∧
      (WebUrl.tail endpoint = [] ∨ path.toList <:+ WebUrl.path endpoint) := by
  obtain ⟨scheme, hparts⟩ := hweb.parts
  by_cases hne : WebUrl.authority endpoint = []
  · -- whatever authority the URL has then, it is not that of the endpoint
    constructor
    · rintro ⟨-, hsame, hsome, -⟩
      exact absurd (hsame.trans hne) hsome
    · exact fun h => absurd hne h.1
  -- the path is joined to the path of the endpoint, or to its tail
  by_cases htail : WebUrl.tail endpoint = []
  · rw [htail] at hparts
    have hjoin := hparts.join hne hslash hplain
    obtain ⟨hauthority, hpath, -⟩ := hjoin.unique
    unfold OnEndpoint
    rw [hauthority, hpath]
    exact iff_of_true ⟨hjoin.startsWeb, rfl, hne, List.suffix_append _ _⟩ ⟨hne, .inl htail⟩
  · have hjoin := hparts.join_tail hne htail hslash
    obtain ⟨hauthority, hpath, -⟩ := hjoin.unique
    unfold OnEndpoint
    rw [hauthority, hpath]
    constructor
    · exact fun h => ⟨hne, .inr h.2.2.2⟩
    · exact fun h => ⟨hjoin.startsWeb, rfl, hne, h.2.resolve_left htail⟩

/-- No path of an endpoint ends in all others. -/
theorem exists_not_suffix (cs : List Char) : ∃ path : String,
    path.toList.head? = some '/' ∧ Unmarked path ∧ ¬ path.toList <:+ cs := by
  refine ⟨String.ofList ('/' :: List.replicate cs.length 'a'), by simp, fun c hc => ?_, fun h => ?_⟩
  · rw [String.toList_ofList, List.mem_cons, List.mem_replicate] at hc
    rcases hc with rfl | ⟨-, rfl⟩ <;> decide
  · have hlength := h.length_le
    simp at hlength

/-! ## The host of a joined URL -/

namespace Address

/-- Text without tabs and line ends. -/
def kept (cs : List Char) : List Char :=
  cs.filter fun c => !(c = '\t' || c = '\n' || c = '\r')

def withoutEnd (cs : List Char) : List Char :=
  (cs.reverse.dropWhile fun c : Char => decide (c.toNat ≤ 32)).reverse

/-- Text that begins with a visible character and holds a slash is cleaned behind the slash only,
but for tabs and line ends. -/
theorem cleaned_append {c : Char} (hc : 32 < c.toNat) (cs ds : List Char) :
    cleaned (c :: cs ++ '/' :: ds) = kept (c :: cs) ++ '/' :: kept (withoutEnd ds) := by
  have hfront : (c :: cs ++ '/' :: ds).dropWhile (fun c : Char => decide (c.toNat ≤ 32)) =
      c :: cs ++ '/' :: ds := List.dropWhile_cons_of_neg (by simpa using hc)
  have hreverse : (c :: cs ++ '/' :: ds).reverse = ds.reverse ++ '/' :: (c :: cs).reverse := by simp
  have hstop : ('/' :: (c :: cs).reverse).dropWhile (fun c : Char => decide (c.toNat ≤ 32)) =
      '/' :: (c :: cs).reverse := List.dropWhile_cons_of_neg (by decide)
  have hend : ((c :: cs ++ '/' :: ds).reverse.dropWhile fun c : Char =>
      decide (c.toNat ≤ 32)).reverse = c :: cs ++ '/' :: withoutEnd ds := by
    rw [hreverse, List.dropWhile_append, hstop]
    split
    · next hall => simp [withoutEnd, List.isEmpty_iff.mp hall]
    · simp [withoutEnd]
  rw [cleaned, hfront, hend, List.filter_append]
  rfl

theorem mem_kept {c : Char} {cs : List Char} :
    c ∈ kept cs ↔ c ∈ cs ∧ c ≠ '\t' ∧ c ≠ '\n' ∧ c ≠ '\r' := by
  simp [kept, and_assoc]

/-- Whether a character belongs to the authority for an HTTP client, which takes either slash for
the end of it. -/
def inOrigin (c : Char) : Bool :=
  !(isSeparator c || c = '?' || c = '#')

/-- What an HTTP client takes for the authority in what follows the colon. -/
def authorityOf (cs : List Char) : List Char :=
  (cs.dropWhile isSeparator).takeWhile inOrigin

/-- The origin of an address is read before its path. -/
theorem origin_ofUrl {url : String} {scheme rest : List Char}
    (h : cut ':' (cleaned url.toList) = (scheme, some rest)) :
    (ofUrl url).origin = scheme ++ "://".toList ++ authorityOf rest := by
  simp only [ofUrl, h, ofParts, Option.getD_some]
  rfl

/-- An authority is not read beyond the slash behind it. -/
theorem authorityOf_of_mem {c : Char} {cs : List Char} (hmem : c ∈ cs) (hc : isSeparator c = false)
    (ds : List Char) : authorityOf (cs ++ '/' :: ds) = authorityOf cs := by
  -- the leading slashes end before `c`
  have hsome : (cs.dropWhile isSeparator).isEmpty = false := by
    rw [List.isEmpty_eq_false_iff, ne_eq, List.dropWhile_eq_nil_iff]
    intro hall
    simp [hall c hmem] at hc
  have hend : ('/' :: ds).takeWhile inOrigin = [] := List.takeWhile_cons_of_neg (by decide)
  rw [authorityOf, List.dropWhile_append, hsome, if_neg Bool.false_ne_true, List.takeWhile_append,
    hend]
  split
  · next hlength =>
    rw [List.append_nil]
    exact ((List.takeWhile_prefix _).eq_of_length hlength).symm
  · rfl

/-- Behind nothing but slashes the authority is read from what follows. -/
theorem authorityOf_of_forall {cs : List Char} (hcs : ∀ c ∈ cs, isSeparator c = true)
    (ds : List Char) : authorityOf (cs ++ '/' :: ds) = authorityOf ds := by
  rw [authorityOf, List.dropWhile_append_of_pos hcs, List.dropWhile_cons_of_pos (by decide),
    authorityOf]

end Address

/-- What an endpoint brings behind the colon of its scheme. -/
def broughtBy (endpoint : String) : List Char :=
  Address.kept (trimSlashes ('/' :: '/' :: WebUrl.rest endpoint))

/-- **The origin of a joined URL.** -/
theorem origin_joinUrl {endpoint : String} (hweb : StartsWeb endpoint) :
    ∃ scheme : List Char, ∀ path : String, (Address.ofUrl (joinUrl endpoint path)).origin =
      scheme ++ "://".toList ++ Address.authorityOf (broughtBy endpoint ++
        '/' :: Address.kept (Address.withoutEnd (dropSlash path.toList))) := by
  obtain ⟨scheme, hparts⟩ := hweb.parts
  refine ⟨scheme, fun path => ?_⟩
  have hendpoint : endpoint.toList = scheme ++ ':' :: ('/' :: '/' :: WebUrl.rest endpoint) := by
    rw [hparts.rest_eq]
    exact hparts.eq
  have hjoin : (joinUrl endpoint path).toList = scheme ++ ':' ::
      trimSlashes ('/' :: '/' :: WebUrl.rest endpoint) ++ '/' :: dropSlash path.toList := by
    rw [joinUrl, String.toList_ofList, hendpoint, trimSlashes_append_cons (by decide)]
  have hcleaned : Address.cleaned (joinUrl endpoint path).toList = scheme ++ ':' ::
      (broughtBy endpoint ++
        '/' :: Address.kept (Address.withoutEnd (dropSlash path.toList))) := by
    rw [hjoin]
    rcases hparts.web with rfl | rfl
    · exact Address.cleaned_append (by decide) ("ttp".toList ++ ':' :: _) _
    · exact Address.cleaned_append (by decide) ("ttps".toList ++ ':' :: _) _
  refine Address.origin_ofUrl ?_
  rw [hcleaned, Address.cut_append hparts.not_mem_scheme]

/-- The endpoint brings something besides slashes, so the host is not looked for in the path. Tabs
and line ends do not count. -/
def Anchored (endpoint : String) : Prop :=
  ∃ c ∈ WebUrl.rest endpoint, Address.isSeparator c = false ∧ c ≠ '\t' ∧ c ≠ '\n' ∧ c ≠ '\r'

/-- An endpoint is anchored exactly if what it brings to a joined URL is more than separators. -/
theorem anchored_iff {endpoint : String} :
    Anchored endpoint ↔ ∃ c ∈ broughtBy endpoint, Address.isSeparator c = false := by
  have hslash : ∀ c, Address.isSeparator c = false → c ≠ '/' := by
    rintro c hc rfl
    exact absurd hc (by decide)
  have hmem : ∀ c, Address.isSeparator c = false → (c ∈ broughtBy endpoint ↔
      c ∈ WebUrl.rest endpoint ∧ c ≠ '\t' ∧ c ≠ '\n' ∧ c ≠ '\r') := by
    intro c hc
    rw [broughtBy, Address.mem_kept, mem_trimSlashes (hslash c hc)]
    simp [hslash c hc]
  constructor
  · rintro ⟨c, hrest, hc, hkept⟩
    exact ⟨c, (hmem c hc).mpr ⟨hrest, hkept⟩, hc⟩
  · rintro ⟨c, hbrought, hc⟩
    obtain ⟨hrest, hkept⟩ := (hmem c hc).mp hbrought
    exact ⟨c, hrest, hc, hkept⟩

/-- **The host is that of the endpoint for all paths, or it is taken from the path.** -/
theorem origin_spec {endpoint : String} (hweb : StartsWeb endpoint) :
    ∃ scheme : List Char,
      (Anchored endpoint → ∀ path, (Address.ofUrl (joinUrl endpoint path)).origin =
        scheme ++ "://".toList ++ Address.authorityOf (broughtBy endpoint)) ∧
      (¬ Anchored endpoint → ∀ path, (Address.ofUrl (joinUrl endpoint path)).origin =
        scheme ++ "://".toList ++ Address.authorityOf
          (Address.kept (Address.withoutEnd (dropSlash path.toList)))) := by
  obtain ⟨scheme, horigin⟩ := origin_joinUrl hweb
  refine ⟨scheme, fun h path => ?_, fun h path => ?_⟩
  · obtain ⟨c, hmem, hc⟩ := anchored_iff.mp h
    rw [horigin, Address.authorityOf_of_mem hmem hc]
  · have hall : ∀ c ∈ broughtBy endpoint, Address.isSeparator c = true := by
      intro c hc
      by_contra hno
      exact h (anchored_iff.mpr ⟨c, hc, by simpa using hno⟩)
    rw [horigin, Address.authorityOf_of_forall hall]

namespace Roster

/-- All endpoints of a roster have passed the check. -/
theorem startsWeb_of_build {endpoints : List String} {tenant : String} {r : Roster}
    (h : build endpoints tenant = .ok r) : ∀ e ∈ r.endpoints, StartsWeb e := by
  have htimeout : (1 : UInt64) ≠ 0 := by decide
  rcases build_spec (s := ⟨endpoints, tenant, 1⟩) htimeout with ⟨m, hm, -⟩ | ⟨hok, hfive⟩
  · rw [h] at hm
    cases hm
  · obtain rfl : r = ⟨endpoints, tenant⟩ := by
      rw [h] at hok
      exact Except.ok.inj hok
    exact (Settings.passes_five_iff_rules.mp hfive).2.1

/-- **Which endpoints keep a request with them.** Of the endpoints that a roster accepts, those that
name an authority and bring neither query nor fragment have the URL of every request on them, and no
others do. For one request it is enough that the path of the endpoint happens to end in the path of
the request. The host that an HTTP client finds in the URL is the same for all requests exactly if
the endpoint is anchored; otherwise the path names it. -/
theorem url_on_endpoint {endpoints : List String} {tenant : String} {r : Roster}
    (h : build endpoints tenant = .ok r) :
    ∀ e ∈ r.endpoints,
      (∀ d : Draft, Unmarked d.path → (OnEndpoint e (r.request d).path ↔
        WebUrl.authority e ≠ [] ∧
          (WebUrl.tail e = [] ∨ (r.request d).path.toList <:+ WebUrl.path e))) ∧
      ((∀ d : Draft, Unmarked d.path → OnEndpoint e (r.request d).path) ↔
        WebUrl.authority e ≠ [] ∧ WebUrl.tail e = []) ∧
      ((∀ d d' : Draft, (Address.ofUrl (joinUrl e (r.request d).path)).origin =
          (Address.ofUrl (joinUrl e (r.request d').path)).origin) ↔ Anchored e) := by
  intro e he
  have hweb := startsWeb_of_build h e he
  have hone : ∀ d : Draft, Unmarked d.path → (OnEndpoint e (r.request d).path ↔
      WebUrl.authority e ≠ [] ∧
        (WebUrl.tail e = [] ∨ (r.request d).path.toList <:+ WebUrl.path e)) := fun d hd =>
    onEndpoint_iff hweb (head?_absolutePath d.path) hd.absolutePath
  refine ⟨hone, ⟨fun hall => ?_, fun hgood d hd => (hone d hd).mpr ⟨hgood.1, .inl hgood.2⟩⟩,
    fun hsame => ?_, fun hanchored d d' => ?_⟩
  · -- a path that the endpoint does not end with tells whether there is a tail
    obtain ⟨path, hslash, hplain, hnot⟩ := exists_not_suffix (WebUrl.path e)
    have hpath : (r.request ⟨.get, path, none, []⟩).path = path := absolutePath_of_slash hslash
    obtain ⟨hne, htail⟩ := (hone ⟨.get, path, none, []⟩ hplain).mp (hall _ hplain)
    rw [hpath] at htail
    exact ⟨hne, htail.resolve_right hnot⟩
  · -- two paths that name two hosts
    by_contra hno
    obtain ⟨scheme, -, horigin⟩ := origin_spec hweb
    have hboth := hsame ⟨.get, "/a", none, []⟩ ⟨.get, "/b", none, []⟩
    rw [horigin hno, horigin hno] at hboth
    have ha : Address.authorityOf (Address.kept (Address.withoutEnd
      (dropSlash (absolutePath "/a").toList))) = ['a'] := by decide +kernel
    have hb : Address.authorityOf (Address.kept (Address.withoutEnd
      (dropSlash (absolutePath "/b").toList))) = ['b'] := by decide +kernel
    exact absurd (ha.symm.trans ((List.append_cancel_left hboth).trans hb)) (by decide)
  · obtain ⟨scheme, horigin, -⟩ := origin_spec hweb
    rw [horigin hanchored, horigin hanchored]

/-- A roster of accepted endpoints: one with a path of its own, one with a query, one without a host
and one whose authority is a backslash. -/
def mixed : Roster :=
  ⟨["http://a/base/", "http://b?zone=1", "http://", "http://\\"], "acme"⟩

/-- Of these endpoints the first one keeps every path, the second loses it to a query, and the last
one has no host of its own. -/
theorem url_on_endpoint_of_mixed :
    build mixed.endpoints mixed.tenant = .ok mixed ∧
      (∀ d : Draft, Unmarked d.path → OnEndpoint "http://a/base/" (mixed.request d).path) ∧
      (∃ d : Draft, Unmarked d.path ∧ ¬ OnEndpoint "http://b?zone=1" (mixed.request d).path) ∧
      ∃ d d' : Draft, (Address.ofUrl (joinUrl "http://\\" (mixed.request d).path)).origin ≠
        (Address.ofUrl (joinUrl "http://\\" (mixed.request d').path)).origin := by
  have hbuild : build mixed.endpoints mixed.tenant = .ok mixed := rfl
  have hspec := url_on_endpoint hbuild
  obtain ⟨-, hbase, -⟩ := hspec "http://a/base/" (by decide)
  obtain ⟨-, hzone, -⟩ := hspec "http://b?zone=1" (by decide)
  obtain ⟨-, -, hbackslash⟩ := hspec "http://\\" (by decide)
  refine ⟨hbuild, hbase.mpr ?_, ?_, ?_⟩
  · decide +kernel
  · by_contra hno
    push Not at hno
    have htail : WebUrl.tail "http://b?zone=1" ≠ [] := by decide +kernel
    exact htail (hzone.mp hno).2
  · by_contra hno
    push Not at hno
    have hall : ∀ c ∈ WebUrl.rest "http://\\", Address.isSeparator c = true :=
      List.all_eq_true.mp (by decide +kernel)
    obtain ⟨c, hmem, hc, -⟩ := hbackslash.mp hno
    rw [hall c hmem] at hc
    cases hc

/-- **A request to a host that nobody named.** The endpoint `http://` is accepted, and the backlog
is asked for at the host `v1`. So it is at `http://\`, whose URL is on the endpoint; and what is
asked for at `http://b?zone=1` is no path at all. -/
theorem backlog_astray :
    build mixed.endpoints mixed.tenant = .ok mixed ∧ Unmarked backlogPath ∧
      (mixed.request ⟨.get, backlogPath, none, []⟩).path = backlogPath ∧
      joinUrl "http://" backlogPath = "http:/v1/status/pending" ∧
      ¬ OnEndpoint "http://" backlogPath ∧
      (Address.ofUrl (joinUrl "http://" backlogPath)).origin = "http://v1".toList ∧
      OnEndpoint "http://\\" backlogPath ∧
      (Address.ofUrl (joinUrl "http://\\" backlogPath)).origin = "http://v1".toList ∧
      ¬ OnEndpoint "http://b?zone=1" backlogPath ∧
      WebUrl.path (joinUrl "http://b?zone=1" backlogPath) = [] := by
  have hunmarked : Unmarked backlogPath := List.all_eq_true.mp (by decide +kernel)
  have hiff : ∀ {e : String}, StartsWeb e → (OnEndpoint e backlogPath ↔ _) := fun hweb =>
    onEndpoint_iff hweb (by decide +kernel) hunmarked
  have hweb : ∀ e ∈ mixed.endpoints, StartsWeb e :=
    startsWeb_of_build (show build mixed.endpoints mixed.tenant = .ok mixed from rfl)
  refine ⟨rfl, hunmarked, by decide +kernel, by decide +kernel, ?_, by decide +kernel, ?_,
    by decide +kernel, ?_, by decide +kernel⟩
  · rw [hiff (hweb _ (by decide))]
    decide +kernel
  · rw [hiff (hweb _ (by decide))]
    decide +kernel
  · rw [hiff (hweb _ (by decide))]
    decide +kernel

end Roster

end ClusterClient
