import Telemetry.Storage.Content
/-!
The page that lists all metrics. Names and values are escaped, so the markup is the page's own.
-/

namespace Telemetry.Server.Page

def escapeChar : Char → List Char
  | '&' => "&amp;".toList
  | '<' => "&lt;".toList
  | '>' => "&gt;".toList
  | '"' => "&quot;".toList
  | '\'' => "&#39;".toList
  | c => [c]

def escape (s : String) : String := String.ofList (s.toList.flatMap escapeChar)

def style : String :=
  "div.metrics \x7b display: flex; \x7d div.metrics div \x7b padding: 0 20px; \x7d " ++
    "table \x7b width: 100%; border: 1px solid #dddddd; border-collapse: collapse; \x7d " ++
    "table td \x7b border: 1px solid #dddddd; padding: 5px; \x7d"

def row (e : String × String) : String :=
  "<tr><td>" ++ escape e.1 ++ "</td><td>" ++ escape e.2 ++ "</td></tr>\n"

def rows (entries : List (String × String)) : String :=
  if entries = [] then "<tr><td>no metrics</td></tr>\n" else String.join (entries.map row)

def table (title : String) (entries : List (String × String)) : String :=
  "<div>\n<h3>" ++ title ++ "</h3>\n<table>\n" ++ rows entries ++ "</table>\n</div>\n"

def render (l : Listing) : String :=
  "<!DOCTYPE html>\n<html>\n<head><meta charset=\"utf-8\"><title>pulsemon</title><style>" ++ style ++
    "</style></head>\n<body>\n<h1>METRICS</h1>\n<div class=\"metrics\">\n" ++
    table "Gauge" l.gauges.toList ++ table "Counter" l.counters.toList ++
    "</div>\n</body>\n</html>\n"

end Telemetry.Server.Page
