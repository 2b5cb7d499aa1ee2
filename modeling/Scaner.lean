import Scaner.Gumbo.CharRef
import Scaner.Gumbo.Handlers
import Scaner.Gumbo.Input
import Scaner.Gumbo.Lex
import Scaner.Gumbo.Markup
import Scaner.Gumbo.RawText
import Scaner.Gumbo.States
import Scaner.Gumbo.Tag
import Scaner.Gumbo.Tokenizer
import Scaner.Gumbo.Tokens
import Scaner.Gumbo.Turns
import Scaner.Gumbo.Utf8
import Scaner.Gzip.Ungzip
import Scaner.HtmlParser.Labels
import Scaner.HtmlParser.Links
import Scaner.HtmlParser.PageLinks
import Scaner.Http.Downloader
import Scaner.Http.Reconnect
import Scaner.Http.Wait
import Scaner.HttpTools.Agree
import Scaner.HttpTools.Behind
import Scaner.HttpTools.Check
import Scaner.HttpTools.ChunkSizes
import Scaner.HttpTools.Chunked
import Scaner.HttpTools.Completed
import Scaner.HttpTools.ContentLength
import Scaner.HttpTools.Cookie
import Scaner.HttpTools.CookieLines
import Scaner.HttpTools.CookieRead
import Scaner.HttpTools.CookieUpdate
import Scaner.HttpTools.Head
import Scaner.HttpTools.HeadLines
import Scaner.HttpTools.HeadText
import Scaner.HttpTools.HeaderNames
import Scaner.HttpTools.HostLine
import Scaner.HttpTools.Interim
import Scaner.HttpTools.Messages
import Scaner.HttpTools.Package
import Scaner.HttpTools.Reason
import Scaner.HttpTools.Url
import Scaner.Lib.Bytes
import Scaner.Lib.CommonPrefix
import Scaner.Lib.Cursor
import Scaner.Lib.Cut
import Scaner.Lib.Find
import Scaner.Lib.History
import Scaner.Lib.LuaStack
import Scaner.Lib.Machine
import Scaner.Lib.OrderedMap
import Scaner.Lib.Parts
import Scaner.Lib.Threads
import Scaner.Lib.Tickets
import Scaner.Lib.Trace
import Scaner.Lib.Utf8
import Scaner.PolicyApi.CallFunction
import Scaner.PolicyApi.InsertLoad
import Scaner.PolicyApi.LuaStates
import Scaner.PolicyApi.Server
import Scaner.PolicyApi.Trigger
import Scaner.PolicyApi.TriggerText
import Scaner.Socket.IoServices
import Scaner.SystemApi.ShellCode
import Scaner.TaskData.Failures
import Scaner.TaskData.Finish
import Scaner.TaskData.Handout
import Scaner.TaskData.Slots
import Scaner.TaskData.Tables
import Scaner.TaskData.TaskList
import Scaner.TaskData.TaskMap
import Scaner.TaskWork.Crawl
import Scaner.TaskWork.Scope
import Scaner.TaskWork.Start
import Scaner.ThreadPool.Conservation
import Scaner.ThreadPool.Counters
import Scaner.ThreadPool.Queue
