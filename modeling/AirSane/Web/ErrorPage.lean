import AirSane.Web.Framing
import AirSane.Web.Request
import AirSane.Web.WebPage

/-! # Error pages

An error page shows the request as the server has read it, of which any byte may come
from the client. Pages for different requests differ in text and line breaks only.
-/

namespace AirSane.Web
open Text Html

/-- `Request::print`. -/
def Request.print (r : Request) : Octets :=
  r.mMethod ++ ascii " " ++ r.mUri ++ ascii " " ++ r.mProtocol ++ ascii "\n" ++
    r.mHeaders.flatMap fun header => header.1 ++ ascii ": " ++ header.2 ++ ascii "\n"

namespace ErrorPage

def title (errorCode : ℤ) : Octets :=
  ascii "Error " ++ integer errorCode ++ ascii ": " ++ statusReason errorCode

/-- `ErrorPage::onRender`. -/
def onRender (errorCode : ℤ) (request : Request) : Octets :=
  ((Element.heading 1).addText (title errorCode)).toString ++ [LF] ++
    (Element.paragraph.addText (ascii "when processing request: ")).toString ++ [LF] ++
    (Element.paragraph.addText request.print).toString

def page (errorCode : ℤ) : WebPage := WebPage.new.setTitle (title errorCode)

/-- The document. -/
def html (errorCode : ℤ) (request : Request) : Octets :=
  (page errorCode).html (onRender errorCode request)

def render (errorCode : ℤ) (request : Request) (response : Response) : Option Response :=
  (page errorCode).render (onRender errorCode request) response

/-- Between the titles of a document. -/
def betweenTitles : Octets :=
  ascii "</title>\n<style>" ++ WebPage.new.mStyle ++ ascii "</style>\n" ++
    ascii "</head>\n<body>\n" ++ ascii "<" ++ ascii "h1" ++ ascii ">"

/-- Between the second title and the request. -/
def betweenTexts : Octets :=
  ascii "</" ++ ascii "h1" ++ ascii ">" ++ [LF] ++ ascii "<" ++ ascii "p" ++ ascii ">" ++
    ascii "when processing request: " ++ ascii "</" ++ ascii "p" ++ ascii ">" ++ [LF] ++ [LF] ++
    ascii "<" ++ ascii "p" ++ ascii ">"

/-- What is before the request in a document with this title. -/
def front (title : Octets) : Octets :=
  ascii "<!DOCTYPE HTML>\n<html>\n<head>\n<meta charset='utf-8'/>\n<title>" ++
    (title ++ (betweenTitles ++ (title ++ betweenTexts)))

def rear : Octets :=
  ascii "</" ++ ascii "p" ++ ascii ">" ++ [LF] ++ ascii "</body>\n</html>\n"

theorem print_ne_nil (request : Request) : request.print ≠ [] :=
  List.append_ne_nil_of_left_ne_nil (List.append_ne_nil_of_right_ne_nil _ (by decide)) _

theorem title_ne_nil (errorCode : ℤ) : title errorCode ≠ [] := List.cons_ne_nil _ _

theorem escapeChar_of_isSome (b : UInt8) : (digitValue b).isSome → escapeChar b = [b] :=
  forall_byte (p := fun b => (digitValue b).isSome → escapeChar b = [b]) (by decide +kernel) b

theorem escapeChar_title (errorCode : ℤ) : ∀ b ∈ title errorCode, escapeChar b = [b] := by
  have hdigits (n : ℕ) : ∀ b ∈ numeral 10 n, escapeChar b = [b] := by
    intro b hb
    obtain ⟨d, hd⟩ := numeral_digit (by omega) (by omega) hb
    exact escapeChar_of_isSome b (by simp [hd])
  have hinteger : ∀ b ∈ integer errorCode, escapeChar b = [b] := by
    unfold integer
    split_ifs
    · exact List.forall_mem_append.2 ⟨forall_mem_of_all (by decide), hdigits _⟩
    · exact hdigits _
  have hreason : ∀ b ∈ statusReason errorCode, escapeChar b = [b] := by
    unfold statusReason
    split <;> exact forall_mem_of_all (by decide)
  have hcolon : ∀ b ∈ ascii ": ", escapeChar b = [b] := forall_mem_of_all (by decide)
  have herror : ∀ b ∈ ascii "Error ", escapeChar b = [b] := forall_mem_of_all (by decide)
  have hnumber := List.forall_mem_append.2 ⟨herror, hinteger⟩
  exact List.forall_mem_append.2 ⟨List.forall_mem_append.2 ⟨hnumber, hcolon⟩, hreason⟩

theorem html_eq (errorCode : ℤ) (request : Request) :
    html errorCode request =
      front (title errorCode) ++ (htmlEscape request.print ++ rear) := by
  have htitle : htmlEscape (title errorCode) = title errorCode :=
    htmlEscape_of_plain (escapeChar_title errorCode)
  have hlead : htmlEscape (ascii "when processing request: ") =
      ascii "when processing request: " := htmlEscape_of_plain (forall_mem_of_all (by decide))
  have hne : ascii "when processing request: " ≠ [] := List.cons_ne_nil _ _
  have hone : (Element.heading 1).mTag = ascii "h1" := by decide
  rw [html, WebPage.html, onRender, Element.toString_addText rfl rfl (title_ne_nil errorCode), hone,
    Element.toString_addText rfl rfl hne, hlead,
    Element.toString_addText rfl rfl (print_ne_nil request)]
  have hpage : (page errorCode).mTitle = title errorCode := rfl
  have hfavicon : ¬ ((page errorCode).mFaviconType ≠ [] ∧ (page errorCode).mFaviconUrl ≠ []) :=
    fun h => h.1 rfl
  rw [if_neg hfavicon, hpage, htitle]
  simp only [front, rear, betweenTitles, betweenTexts, List.append_assoc, List.append_nil]
  rfl

theorem run_front (errorCode : ℤ) : (State.run .data (front (title errorCode))).1 = .data := by
  have hplain : LESS ∉ title errorCode := by
    intro hlt
    exact absurd (escapeChar_title errorCode LESS hlt) (by decide)
  have htitle : (State.run .data (ascii
      "<!DOCTYPE HTML>\n<html>\n<head>\n<meta charset='utf-8'/>\n<title>")).1 =
      .text (ascii "title") := by decide +kernel
  have hhead : (State.run (.text (ascii "title")) betweenTitles).1 = .data := by decide +kernel
  have hbody : (State.run .data betweenTexts).1 = .data := by decide +kernel
  have hinside := congrArg Prod.fst (@State.run_text _ (ascii "title") hplain)
  have hshown := congrArg Prod.fst (State.run_data hplain)
  rw [front, State.run_append_fst htitle, State.run_append_fst hinside,
    State.run_append_fst hhead, State.run_append_fst hshown, hbody]

/-- The document is what a response that has not been sent gets as its content. -/
theorem render_prepared (errorCode status : ℤ) (calls : List (Octets × Octets))
    (request : Request) :
    render errorCode request (Response.prepared status calls) =
      (Response.prepared status (calls ++ [(HTTP_HEADER_CONTENT_TYPE, ascii "text/html")])
        ).sendWithContent (html errorCode request) := by
  have hunsent : (Response.prepared status calls).mSent = false := by rw [prepared_eq]
  have hcall : Response.prepared status (calls ++ [(HTTP_HEADER_CONTENT_TYPE, ascii "text/html")]) =
      (Response.prepared status calls).setHeader HTTP_HEADER_CONTENT_TYPE (ascii "text/html") := by
    rw [Response.prepared, List.foldl_append]
    rfl
  rw [render, WebPage.render, hunsent, hcall]
  rfl

end ErrorPage

/-- Pages of one error code have the same tags but for line breaks, and what comes from
the request is text in the same place of all of them, from which it can be read back. -/
structure Unscriptable (errorCode : ℤ) : Prop where
  rendered : ∀ (request : Request) (status : ℤ) (calls : List (Octets × Octets)),
    ErrorPage.render errorCode request (Response.prepared status calls) =
      (Response.prepared status (calls ++ [(HTTP_HEADER_CONTENT_TYPE, ascii "text/html")])
        ).sendWithContent (ErrorPage.html errorCode request)
  sameTags : ∀ request request' : Request,
    (tags (tokenize (ErrorPage.html errorCode request))).filter (· ≠ br) =
      (tags (tokenize (ErrorPage.html errorCode request'))).filter (· ≠ br)
  textOnly : ∃ front rear, (State.run .data front).1 = .data ∧ ∀ request : Request,
    ∃ text, ErrorPage.html errorCode request = front ++ (text ++ rear) ∧ Escaped text ∧
      (State.run .data text).1 = .data ∧ TextOnly (State.run .data text).2 ∧
      text = htmlEscape request.print ∧ htmlUnescape text = request.print

theorem unscriptable (errorCode : ℤ) : Unscriptable errorCode where
  rendered request status calls := ErrorPage.render_prepared errorCode status calls request
  sameTags request request' := by
    have hfront := ErrorPage.run_front errorCode
    rw [ErrorPage.html_eq, ErrorPage.html_eq, tags_escaped hfront (escaped_htmlEscape _),
      tags_escaped hfront (escaped_htmlEscape _)]
  textOnly := by
    refine ⟨_, ErrorPage.rear, ErrorPage.run_front errorCode, fun request => ?_⟩
    have hescaped := escaped_htmlEscape request.print
    exact ⟨_, ErrorPage.html_eq errorCode request, hescaped, hescaped.run_data.1,
      hescaped.run_data.2, rfl, htmlUnescape_htmlEscape _⟩

end AirSane.Web
