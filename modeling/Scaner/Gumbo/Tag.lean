/-
# Tags

`html_parser/tag.cpp`: the tags by their names.
-/

import Scaner.Lib.LuaStack

namespace Scaner
namespace Gumbo

open Bytes LuaStack

/-- `enum GumboTag`. -/
inductive GumboTag
  | html | head | title | base | link | «meta» | style | script | noscript | template | body
  | article | «section» | nav | aside | h1 | h2 | h3 | h4 | h5 | h6 | hgroup | header | footer
  | address | p | hr | pre | blockquote | ol | ul | li | dl | dt | dd | figure | figcaption
  | main | div | a | em | strong | small | s | cite | q | dfn | abbr | data | time | code | var
  | samp | kbd | sub | sup | i | b | u | mark | ruby | rt | rp | bdi | bdo | span | br | wbr
  | ins | del | image | img | iframe | embed | object | param | video | audio | source | track
  | canvas | map | area | math | mi | mo | mn | ms | mtext | mglyph | malignmark | annotationXml
  | svg | foreignobject | desc | table | caption | colgroup | col | tbody | thead | tfoot | tr
  | td | th | form | fieldset | legend | label | input | button | select | datalist | optgroup
  | option | textarea | keygen | output | progress | meter | details | summary | menu | menuitem
  | applet | acronym | bgsound | dir | frame | frameset | noframes | isindex | listing | xmp
  | nextid | noembed | plaintext | rb | strike | basefont | big | blink | center | font | marquee
  | multicol | nobr | spacer | tt | unknown | last
  deriving DecidableEq

/-- `kGumboTagNames`, with the tag that stands at the place of the name.  `gumbo_tag_enum` does not
come to the last one. -/
def kGumboTagNames : List (GumboTag × String) :=
  [
    (.html, "html"), (.head, "head"), (.title, "title"), (.base, "base"), (.link, "link"),
    (.«meta», "meta"), (.style, "style"), (.script, "script"), (.noscript, "noscript"),
    (.template, "template"), (.body, "body"), (.article, "article"), (.«section», "section"),
    (.nav, "nav"), (.aside, "aside"), (.h1, "h1"), (.h2, "h2"), (.h3, "h3"), (.h4, "h4"),
    (.h5, "h5"), (.h6, "h6"), (.hgroup, "hgroup"), (.header, "header"), (.footer, "footer"),
    (.address, "address"), (.p, "p"), (.hr, "hr"), (.pre, "pre"), (.blockquote, "blockquote"),
    (.ol, "ol"), (.ul, "ul"), (.li, "li"), (.dl, "dl"), (.dt, "dt"), (.dd, "dd"),
    (.figure, "figure"), (.figcaption, "figcaption"), (.main, "main"), (.div, "div"), (.a, "a"),
    (.em, "em"), (.strong, "strong"), (.small, "small"), (.s, "s"), (.cite, "cite"), (.q, "q"),
    (.dfn, "dfn"), (.abbr, "abbr"), (.data, "data"), (.time, "time"), (.code, "code"),
    (.var, "var"), (.samp, "samp"), (.kbd, "kbd"), (.sub, "sub"), (.sup, "sup"), (.i, "i"),
    (.b, "b"), (.u, "u"), (.mark, "mark"), (.ruby, "ruby"), (.rt, "rt"), (.rp, "rp"),
    (.bdi, "bdi"), (.bdo, "bdo"), (.span, "span"), (.br, "br"), (.wbr, "wbr"), (.ins, "ins"),
    (.del, "del"), (.image, "image"), (.img, "img"), (.iframe, "iframe"), (.embed, "embed"),
    (.object, "object"), (.param, "param"), (.video, "video"), (.audio, "audio"),
    (.source, "source"), (.track, "track"), (.canvas, "canvas"), (.map, "map"), (.area, "area"),
    (.math, "math"), (.mi, "mi"), (.mo, "mo"), (.mn, "mn"), (.ms, "ms"), (.mtext, "mtext"),
    (.mglyph, "mglyph"), (.malignmark, "malignmark"), (.annotationXml, "annotation-xml"),
    (.svg, "svg"), (.foreignobject, "foreignobject"), (.desc, "desc"), (.table, "table"),
    (.caption, "caption"), (.colgroup, "colgroup"), (.col, "col"), (.tbody, "tbody"),
    (.thead, "thead"), (.tfoot, "tfoot"), (.tr, "tr"), (.td, "td"), (.th, "th"), (.form, "form"),
    (.fieldset, "fieldset"), (.legend, "legend"), (.label, "label"), (.input, "input"),
    (.button, "button"), (.select, "select"), (.datalist, "datalist"), (.optgroup, "optgroup"),
    (.option, "option"), (.textarea, "textarea"), (.keygen, "keygen"), (.output, "output"),
    (.progress, "progress"), (.meter, "meter"), (.details, "details"), (.summary, "summary"),
    (.menu, "menu"), (.menuitem, "menuitem"), (.applet, "applet"), (.acronym, "acronym"),
    (.bgsound, "bgsound"), (.dir, "dir"), (.frame, "frame"), (.frameset, "frameset"),
    (.noframes, "noframes"), (.isindex, "isindex"), (.listing, "listing"), (.xmp, "xmp"),
    (.nextid, "nextid"), (.noembed, "noembed"), (.plaintext, "plaintext"), (.rb, "rb"),
    (.strike, "strike"), (.basefont, "basefont"), (.big, "big"), (.blink, "blink"),
    (.center, "center"), (.font, "font"), (.marquee, "marquee"), (.multicol, "multicol"),
    (.nobr, "nobr"), (.spacer, "spacer"), (.tt, "tt"), (.unknown, "")]

/-- `_strcasecmp`, as far as it is zero. -/
def strcasecmp (s t : Bytes) : Bool := (cString s).map toLower == (cString t).map toLower

/-- `gumbo_tag_enum`. -/
def gumboTagEnum (tagname : Bytes) : GumboTag :=
  ((kGumboTagNames.find? fun r => strcasecmp tagname (str r.2)).map Prod.fst).getD .unknown

end Gumbo
end Scaner
