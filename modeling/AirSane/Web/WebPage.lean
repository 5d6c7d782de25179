import AirSane.Html.Tokens
import AirSane.Web.Response

/-! # Web pages

`WebPage` and its elements. Text goes into an element through `htmlEscape`, which writes
markup characters as character references and begins new lines.
-/

namespace AirSane.Web
open Text Html

/-- What `htmlEscape` writes for a character. -/
def escapeChar (b : UInt8) : Octets :=
  if b = 38 then ascii "&amp;" else if b = 60 then ascii "&lt;" else if b = 62 then ascii "&gt;"
  else if b = 39 then ascii "&apos;" else if b = 34 then ascii "&quot;"
  else if b = LF then ascii "<br>\n" else [b]

/-- `WebPage::htmlEscape`. -/
def htmlEscape (s : Octets) : Octets := s.flatMap escapeChar

/-- The text that has been escaped. -/
def htmlUnescape : Octets → Octets
  | [] => []
  | 38 :: 97 :: 109 :: 112 :: 59 :: s => 38 :: htmlUnescape s -- `&amp;`
  | 38 :: 108 :: 116 :: 59 :: s => 60 :: htmlUnescape s -- `&lt;`
  | 38 :: 103 :: 116 :: 59 :: s => 62 :: htmlUnescape s -- `&gt;`
  | 38 :: 97 :: 112 :: 111 :: 115 :: 59 :: s => 39 :: htmlUnescape s -- `&apos;`
  | 38 :: 113 :: 117 :: 111 :: 116 :: 59 :: s => 34 :: htmlUnescape s -- `&quot;`
  | 60 :: 98 :: 114 :: 62 :: 10 :: s => LF :: htmlUnescape s -- `<br>` and its line feed
  | b :: s => b :: htmlUnescape s

/-- `WebPage::element`; a paragraph ends its line. -/
structure Element where
  mTag : Octets
  mAttributes : Dictionary
  mText : Octets
  endsLine : Bool

namespace Element

def heading (level : ℕ) : Element := ⟨ascii "h" ++ numeral 10 level, [], [], false⟩
def paragraph : Element := ⟨ascii "p", [], [], true⟩

def addContent (e : Element) (s : Octets) : Element := { e with mText := e.mText ++ s }
def addText (e : Element) (s : Octets) : Element := e.addContent (htmlEscape s)

/-- `element::toString`, and the line feed that `paragraph::toString` adds. -/
def toString (e : Element) : Octets :=
  ascii "<" ++ e.mTag ++
    (e.mAttributes.flatMap fun a => ascii " " ++ a.1 ++ ascii "='" ++ htmlEscape a.2 ++ ascii "'") ++
    ascii ">" ++ (if e.mText = [] then [] else e.mText ++ ascii "</" ++ e.mTag ++ ascii ">") ++
    if e.endsLine then [LF] else []

end Element

structure WebPage where
  mTitle : Octets
  mStyle : Octets
  mFaviconType : Octets
  mFaviconUrl : Octets

namespace WebPage

def addStyle (page : WebPage) (s : Octets) : WebPage :=
  { page with mStyle := page.mStyle ++ s ++ [LF] }

/-- `WebPage::WebPage`. -/
def new : WebPage := addStyle ⟨[], [], [], []⟩ (ascii "body \x7b font-family:sans-serif \x7d")

def setTitle (page : WebPage) (s : Octets) : WebPage := { page with mTitle := s }

/-- The document that `WebPage::render` makes of what `onRender` has written. -/
def html (page : WebPage) (out : Octets) : Octets :=
  ascii "<!DOCTYPE HTML>\n<html>\n<head>\n<meta charset='utf-8'/>\n<title>" ++
    htmlEscape page.mTitle ++ ascii "</title>\n<style>" ++ page.mStyle ++ ascii "</style>\n" ++
    (if page.mFaviconType ≠ [] ∧ page.mFaviconUrl ≠ [] then
      ascii "<link rel='icon' type='" ++ page.mFaviconType ++ ascii "' href='" ++
        page.mFaviconUrl ++ ascii "'>\n"
    else []) ++
    ascii "</head>\n<body>\n" ++ out ++ ascii "</body>\n</html>\n"

/-- `WebPage::render`. -/
def render (page : WebPage) (out : Octets) (response : Response) : Option Response :=
  if response.mSent then some response
  else (response.setHeader HTTP_HEADER_CONTENT_TYPE (ascii "text/html")).sendWithContent
    (page.html out)

end WebPage

section
variable {s : Octets}

theorem htmlEscape_append (s t : Octets) : htmlEscape (s ++ t) = htmlEscape s ++ htmlEscape t :=
  List.flatMap_append

theorem escapeChar_ne_nil (b : UInt8) : escapeChar b ≠ [] := by
  unfold escapeChar
  split_ifs <;> exact List.cons_ne_nil _ _

theorem htmlEscape_ne_nil (h : s ≠ []) : htmlEscape s ≠ [] := by
  obtain ⟨b, s, rfl⟩ := List.exists_cons_of_ne_nil h
  exact List.append_ne_nil_of_left_ne_nil (escapeChar_ne_nil b) _

/-- An element with some text in it. -/
theorem Element.toString_addText {e : Element} (hattributes : e.mAttributes = [])
    (htext : e.mText = []) (hs : s ≠ []) :
    (e.addText s).toString = ascii "<" ++ (e.mTag ++ (ascii ">" ++ (htmlEscape s ++
      (ascii "</" ++ (e.mTag ++ (ascii ">" ++ if e.endsLine then [LF] else [])))))) := by
  simp only [Element.toString, Element.addText, Element.addContent, hattributes, htext,
    List.flatMap_nil, List.append_nil, List.nil_append, List.append_assoc,
    if_neg (htmlEscape_ne_nil hs)]

/-- Text without markup characters and lines is not changed. -/
theorem htmlEscape_of_plain (h : ∀ b ∈ s, escapeChar b = [b]) : htmlEscape s = s := by
  induction s with
  | nil => rfl
  | cons b s ih =>
    rw [htmlEscape, List.flatMap_cons, h b List.mem_cons_self]
    exact congrArg (b :: ·) (ih fun c hc => h c (List.mem_cons_of_mem _ hc))

theorem escaped_escapeChar (b : UInt8) (h : Escaped s) : Escaped (escapeChar b ++ s) := by
  unfold escapeChar
  split_ifs with hamp hlt hgt hapos hquot hlf
  · exact .reference "amp" (by simp) h
  · exact .reference "lt" (by simp) h
  · exact .reference "gt" (by simp) h
  · exact .reference "apos" (by simp) h
  · exact .reference "quot" (by simp) h
  · exact .lineBreak (.char (by decide) h)
  · have hspecial : ascii "<>&\"'" = [60, 62, 38, 34, 39] := rfl
    exact .char (by simp [hspecial, hamp, hlt, hgt, hapos, hquot]) h

theorem escaped_htmlEscape (s : Octets) : Escaped (htmlEscape s) := by
  induction s with
  | nil => exact .nil
  | cons b s ih => exact escaped_escapeChar b ih

theorem htmlUnescape_escapeChar (b : UInt8) (s : Octets) :
    htmlUnescape (escapeChar b ++ s) = b :: htmlUnescape s := by
  unfold escapeChar
  split_ifs with hamp hlt hgt hapos hquot hlf
  · rw [hamp]
    rfl
  · rw [hlt]
    rfl
  · rw [hgt]
    rfl
  · rw [hapos]
    rfl
  · rw [hquot]
    rfl
  · rw [hlf]
    rfl
  · rw [List.singleton_append, htmlUnescape] <;> simp [hamp, hlt]

/-- No two texts are escaped to the same. -/
theorem htmlUnescape_htmlEscape (s : Octets) : htmlUnescape (htmlEscape s) = s := by
  induction s with
  | nil => rfl
  | cons b s ih =>
    rw [htmlEscape, List.flatMap_cons, htmlUnescape_escapeChar]
    exact congrArg (b :: ·) ih

end
end AirSane.Web
