import WebTech.Lib.JsonText
import WebTech.Lib.Floating
import WebTech.Lib.Delivery
import WebTech.Assignment8
import WebTech.Lib.Decimal
import WebTech.Lib.Machine
import WebTech.Lib.Executor
import WebTech.MainActivity
import WebTech.MainScreen
import WebTech.StockChart
import WebTech.Lib.Ecma
import WebTech.Page
import WebTech.Handler
import WebTech.EventLoop
import WebTech.LatestRequest
import WebTech.PostButton
import WebTech.TabViews
import WebTech.Failures
import WebTech.Lib.Utf8
import WebTech.Lib.Xml
import WebTech.Producer
import WebTech.FieldFidelity
import WebTech.Lib.Numeral
import WebTech.Servlet
import WebTech.Headlines
import WebTech.News
import WebTech.Suggestions
import WebTech.Homework2
import WebTech.ErrorPaths
import WebTech.Lib.Magnitude
import WebTech.ChangeSign
import WebTech.PageStructure
import WebTech.MarketCap
import WebTech.Lib.CharRef
import WebTech.Lib.Html
import WebTech.Lib.HtmlText
import WebTech.Lib.HtmlValue
import WebTech.HeadlineMarkup
import WebTech.CatalogueTable
import WebTech.Lib.Shortest
import WebTech.TextFidelity
import WebTech.Lib.Url
import WebTech.Transport
import WebTech.AppRuns
import WebTech.Clients
import WebTech.PageElements
import WebTech.AutoCompleteTest
import WebTech.SearchOutcome
import WebTech.NewsActivity
import WebTech.Lib.HtmlTemplate
import WebTech.QuoteTable
import WebTech.Backends
import WebTech.PostedSymbol
import WebTech.SearchSystem
import WebTech.ChartRequests
import WebTech.Lib.HtmlBrackets
import WebTech.Lib.Recoding
import WebTech.Summary
import WebTech.Rendering
